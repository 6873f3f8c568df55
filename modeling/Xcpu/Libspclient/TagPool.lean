import Mathlib.Data.List.Perm.Subperm
import Xcpu.Libspclient.Fsys

/-!
Tags of the requests a client connection has outstanding: each is set in the tag pool and
belongs to one request. `held` are the requests already unlinked, whose callback runs
before their tag is put back.
-/

namespace Xcpu.Libspclient

open Xcpu.Bitmap Xcpu.Transition Xcpu.Outbound

def Spcfsys.outstanding (fs : Spcfsys) : List Spcreq := fs.pend ++ fs.sent ++ fs.answered

def label (req : Spcreq) : Nat × Nat := (req.tc.type, req.tag)

def labels (held : List Spcreq) (fs : Spcfsys) : List (Nat × Nat) :=
  (held ++ fs.outstanding).map label

def poolTags (pairs : List (Nat × Nat)) : List Nat := (pairs.map Prod.snd).filter (· ≠ NOTAG)

structure TagsKept (fs : Spcfsys) (held : List Spcreq) : Prop where
  sized : fs.tagpool.Sized
  limit : fs.tagpool.maxid = 65535
  typed : ∀ pair ∈ labels held fs, pair.1 ≠ Tversion → pair.2 ≠ NOTAG
  distinct : (poolTags (labels held fs)).Nodup
  marked : ∀ tag ∈ poolTags (labels held fs), tag < NOTAG ∧ bitAt fs.tagpool.map tag = true

theorem find?_perm_eraseP {α : Type} {matching : α → Bool} {items : List α} {item : α}
    (found : items.find? matching = some item) :
    (item :: items.eraseP matching).Perm items := by
  induction items with
  | nil => contradiction
  | cons first rest ih =>
      cases wanted : matching first with
      | true =>
          rw [List.find?_cons_of_pos wanted, Option.some.injEq] at found
          subst item
          rw [List.eraseP_cons_of_pos wanted]
      | false =>
          rw [List.find?_cons_of_neg (by simp [wanted])] at found
          rw [List.eraseP_cons_of_neg (by simp [wanted])]
          exact (List.Perm.swap ..).trans ((ih found).cons first)

theorem unlink_perm {α : Type} (front back : List α) {items erased : List α} {item : α}
    (split : (item :: erased).Perm items) :
    (item :: (front ++ erased ++ back)).Perm (front ++ items ++ back) :=
  (List.perm_middle.symm.trans (split.append_left front)).append_right back

theorem poolTags_subperm {pairs others : List (Nat × Nat)} (fewer : pairs.Subperm others) :
    (poolTags pairs).Subperm (poolTags others) := by
  obtain ⟨between, same, sub⟩ := fewer
  exact ⟨poolTags between, (same.map Prod.snd).filter _, (sub.map Prod.snd).filter _⟩

theorem TagsKept.moved {fs next : Spcfsys} {held others : List Spcreq} (kept : TagsKept fs held)
    (pool : next.tagpool = fs.tagpool)
    (fewer : (labels others next).Subperm (labels held fs)) : TagsKept next others := by
  have tags := poolTags_subperm fewer
  refine ⟨?_, ?_, ?_, ?_, ?_⟩
  · rw [pool]
    exact kept.sized
  · rw [pool]
    exact kept.limit
  · intro pair member
    exact kept.typed pair (fewer.subset member)
  · obtain ⟨between, same, sub⟩ := tags
    exact same.nodup_iff.mp (kept.distinct.sublist sub)
  · intro tag member
    rw [pool]
    exact kept.marked tag (tags.subset member)

theorem TagsKept.unlinked {fs next : Spcfsys} {held others : List Spcreq} (kept : TagsKept fs held)
    (pool : next.tagpool = fs.tagpool)
    (same : (others ++ next.outstanding).Perm (held ++ fs.outstanding)) : TagsKept next others :=
  kept.moved pool (same.map label).subperm

theorem putTag_kept {fs next : Spcfsys} {req : Spcreq} {held : List Spcreq}
    (kept : TagsKept fs (req :: held)) (put : fs.putTag req.tag = some next) :
    TagsKept next held := by
  have limit : fs.tagpool.maxid.toNat = 65535 := by
    rw [kept.limit]
    rfl
  obtain ⟨pool, cleared, same⟩ := Option.map_eq_some_iff.mp put
  subst next
  unfold spcPutId at cleared
  split at cleared
  · simp only [Option.some.injEq] at cleared
    subst pool
    exact kept.moved rfl (List.sublist_cons_self _ _).subperm
  · rename_i small
    split at cleared
    · simp only [Option.some.injEq] at cleared
      subst pool
      have pooled : req.tag ≠ NOTAG := by
        unfold NOTAG
        omega
      have distinct := kept.distinct
      have marked := kept.marked
      have front : poolTags (labels (req :: held) fs) = req.tag :: poolTags (labels held fs) := by
        simp [poolTags, labels, label, pooled]
      rw [front] at distinct marked
      obtain ⟨single, others⟩ := List.nodup_cons.mp distinct
      refine ⟨⟨?_, ?_, ?_, ?_⟩, kept.limit, ?_, others, ?_⟩
      · simpa using kept.sized.started
      · simpa using kept.sized.addressable
      · simpa using kept.sized.chunks
      · simpa using kept.sized.close
      · intro pair member
        exact kept.typed pair (List.mem_cons_of_mem _ member)
      · intro other member
        have before := marked other (List.mem_cons_of_mem _ member)
        have different : other ≠ req.tag := by
          intro same
          rw [same] at member
          exact single member
        have bit : req.tag % 8 < 8 := Nat.mod_lt _ (by decide)
        have place : req.tag / 8 * 8 + req.tag % 8 = req.tag := by omega
        refine ⟨before.1, ?_⟩
        simp only [bitAt_clearBit _ _ _ _ bit, place, different, decide_false, before.2]
        rfl
    · contradiction

theorem spcRequestFlushed_kept {fs next : Spcfsys} {ref : Nat} {held : List Spcreq}
    (kept : TagsKept fs held) (flushed : spcRequestFlushed fs ref = some next) :
    TagsKept next held := by
  generalize waiting : fs.sent.length = length
  induction length using Nat.strongRecOn generalizing fs ref next held with
  | ind length ih =>
      rcases spcRequestFlushed_cases flushed with
        ⟨req, middle, found, shorter, called, put⟩ | ⟨req, found, put⟩
      · have split := find?_perm_eraseP found
        have unlinked : TagsKept (fs.unlink ref) (req :: held) := by
          refine kept.unlinked rfl ?_
          simpa [Spcfsys.outstanding, Spcfsys.unlink] using
            unlink_perm (held ++ fs.pend) fs.answered split
        refine putTag_kept ?_ put
        cases callback : req.cb with
        | user =>
            rw [callback] at called
            simp only [Spcfsys.callback, Option.some.injEq] at called
            subst middle
            exact unlinked
        | flushCb request =>
            rw [callback] at called
            exact ih _ (waiting ▸ shorter) unlinked called rfl
      · have split := find?_perm_eraseP found
        refine putTag_kept ?_ put
        refine kept.unlinked rfl ?_
        simpa [Spcfsys.outstanding] using unlink_perm (held ++ fs.pend ++ fs.sent) [] split

theorem callback_kept {fs next : Spcfsys} {cb : Callback} {held : List Spcreq}
    (kept : TagsKept fs held) (called : fs.callback cb = some next) : TagsKept next held := by
  cases cb with
  | user =>
      simp only [Spcfsys.callback, Option.some.injEq] at called
      subst next
      exact kept
  | flushCb request => exact spcRequestFlushed_kept kept called

theorem spcDisconnectFsys_tags {fs : Spcfsys} (kept : TagsKept fs []) :
    TagsKept (spcDisconnectFsys fs) [] :=
  kept.moved rfl (List.nil_sublist _).subperm

theorem spcFdWrite_tags {fs next : Spcfsys} {socket : Socket} (kept : TagsKept fs [])
    (written : spcFdWrite fs socket = some next) : TagsKept next [] := by
  unfold spcFdWrite at written
  split at written
  · simp only [Option.some.injEq] at written
    subst next
    exact kept
  · rename_i req rest pending
    split at written
    · contradiction
    · cases socket with
      | refuses =>
          simp only [Option.some.injEq] at written
          subst next
          exact kept
      | closed =>
          simp only [Option.some.injEq] at written
          subst next
          exact spcDisconnectFsys_tags kept
      | takes count =>
          simp only at written
          split at written
          · simp only [Option.some.injEq] at written
            subst next
            unfold Spcfsys.wrote
            split
            · refine kept.unlinked rfl ?_
              simp only [Spcfsys.outstanding, pending, List.nil_append]
              refine List.Perm.append_right _ ?_
              exact List.perm_middle
            · exact kept.unlinked rfl (List.Perm.refl _)
          · contradiction

theorem enqueue_tags {fs next : Spcfsys} {tc : Tcall} {tag : Nat} {cb : Callback} {socket : Socket}
    (kept : TagsKept { fs with pend := fs.pend ++ [⟨fs.nextRef, tag, tc, cb, false⟩] } [])
    (queued : fs.enqueue tc tag cb socket = some next) : TagsKept next [] := by
  have added : TagsKept { fs with
      pend := fs.pend ++ [⟨fs.nextRef, tag, tc, cb, false⟩]
      nextRef := fs.nextRef + 1 } [] := kept.unlinked rfl (List.Perm.refl _)
  unfold Spcfsys.enqueue at queued
  simp only at queued
  split at queued
  · exact spcFdWrite_tags added queued
  · simp only [Option.some.injEq] at queued
    subst next
    exact added

theorem appended_labels (fs : Spcfsys) (req : Spcreq) :
    (labels [] { fs with pend := fs.pend ++ [req] }).Perm (label req :: labels [] fs) := by
  simp [labels, Spcfsys.outstanding]

theorem untagged_added {fs : Spcfsys} {tc : Tcall} {cb : Callback} (kept : TagsKept fs [])
    (version : tc.type = Tversion) :
    TagsKept { fs with pend := fs.pend ++ [⟨fs.nextRef, NOTAG, tc, cb, false⟩] } [] := by
  have same := appended_labels fs ⟨fs.nextRef, NOTAG, tc, cb, false⟩
  have tags : (poolTags (labels [] { fs with
      pend := fs.pend ++ [⟨fs.nextRef, NOTAG, tc, cb, false⟩] })).Perm (poolTags (labels [] fs)) := by
    refine ((same.map Prod.snd).filter _).trans ?_
    simp [poolTags, label]
  refine ⟨kept.sized, kept.limit, ?_, tags.nodup_iff.mpr kept.distinct, ?_⟩
  · intro pair member other
    rcases List.mem_cons.mp (same.mem_iff.mp member) with new | old
    · rw [new] at other
      exact absurd version other
    · exact kept.typed pair old other
  · intro tag member
    exact kept.marked tag (tags.mem_iff.mp member)

theorem tagged_added {fs : Spcfsys} (tc : Tcall) (cb : Callback) {grows : Bool}
    (kept : TagsKept fs []) (room : fs.tagpool.HasRoom grows) :
    (spcGetId fs.tagpool grows).1 % 65536 = (spcGetId fs.tagpool grows).1 ∧
    TagsKept { fs with tagpool := (spcGetId fs.tagpool grows).2 } [] ∧
    ((spcGetId fs.tagpool grows).1 ≠ NOTAG →
      TagsKept { fs with
        tagpool := (spcGetId fs.tagpool grows).2
        pend := fs.pend ++ [⟨fs.nextRef, (spcGetId fs.tagpool grows).1, tc, cb, false⟩] } []) := by
  obtain ⟨clear, _, inside, limit, sized, bits⟩ := spcGetId_room fs.tagpool grows kept.sized room
  generalize spcGetId fs.tagpool grows = answer at *
  obtain ⟨id, pool⟩ := answer
  simp only at clear inside limit sized bits ⊢
  have maxid : pool.maxid = 65535 := limit.trans kept.limit
  have number : pool.maxid.toNat = 65535 := by
    rw [maxid]
    rfl
  have close := sized.close
  have taken : TagsKept { fs with tagpool := pool } [] := by
    refine ⟨sized, maxid, kept.typed, kept.distinct, ?_⟩
    intro tag member
    have before := kept.marked tag member
    refine ⟨before.1, ?_⟩
    simp only [bits, before.2, Bool.or_true]
  refine ⟨by omega, taken, ?_⟩
  intro pooled
  have same := appended_labels { fs with tagpool := pool } ⟨fs.nextRef, id, tc, cb, false⟩
  have tags : (poolTags (labels [] { fs with
      tagpool := pool
      pend := fs.pend ++ [⟨fs.nextRef, id, tc, cb, false⟩] })).Perm
      (id :: poolTags (labels [] fs)) := by
    refine ((same.map Prod.snd).filter _).trans ?_
    simp only [label, List.map_cons, ne_eq, pooled, not_false_eq_true, decide_true,
      List.filter_cons_of_pos]
    exact List.Perm.refl _
  have unused : id ∉ poolTags (labels [] fs) := by
    intro used
    rw [(kept.marked id used).2] at clear
    contradiction
  refine ⟨sized, maxid, ?_, ?_, ?_⟩
  · intro pair member other
    rcases List.mem_cons.mp (same.mem_iff.mp member) with new | old
    · rw [new]
      exact pooled
    · exact taken.typed pair old other
  · exact tags.nodup_iff.mpr (List.nodup_cons.mpr ⟨unused, kept.distinct⟩)
  · intro tag member
    rcases List.mem_cons.mp (tags.mem_iff.mp member) with new | old
    · subst tag
      refine ⟨?_, by simp [bits]⟩
      unfold NOTAG at pooled ⊢
      omega
    · exact taken.marked tag old

theorem spcRpcnb_tags {fs next : Spcfsys} {tc : Tcall} {cb : Callback} {around : Surroundings}
    (kept : TagsKept fs [])
    (room : fs.connected = true → around.allocates = true → tc.type ≠ Tversion →
      fs.tagpool.HasRoom around.grows)
    (called : spcRpcnb fs tc cb around = some next) : TagsKept next [] := by
  unfold spcRpcnb at called
  split at called
  · exact callback_kept kept called
  · rename_i ready
    simp only [not_or, not_not] at ready
    split at called
    · rename_i version
      exact enqueue_tags (untagged_added kept version) called
    · rename_i other
      unfold Spcfsys.tagged at called
      obtain ⟨exact, taken, added⟩ := tagged_added
        (spSetTag tc ((spcGetId fs.tagpool around.grows).1 % 65536)) cb kept
        (room ready.1 ready.2 other)
      split at called
      · exact callback_kept taken called
      · rename_i pooled
        rw [exact] at pooled called added
        exact enqueue_tags (added pooled) called

theorem spcFdRead_tags {fs next : Spcfsys} {tag : Nat} (kept : TagsKept fs [])
    (read : spcFdRead fs tag = some next) : TagsKept next [] := by
  unfold spcFdRead at read
  split at read
  · simp only [Option.some.injEq] at read
    subst next
    exact kept
  · rename_i req found
    obtain ⟨rest, called, finished⟩ := Option.bind_eq_some_iff.mp read
    have split := find?_perm_eraseP found
    have unlinked : TagsKept { fs with sent := fs.sent.eraseP (·.tag == tag) } [req] := by
      refine kept.unlinked rfl ?_
      simpa [Spcfsys.outstanding] using unlink_perm fs.pend fs.answered split
    have called := callback_kept unlinked called
    split at finished
    · simp only [Option.some.injEq] at finished
      subst next
      refine called.unlinked rfl ?_
      simp only [Spcfsys.outstanding, List.nil_append]
      exact List.perm_middle
    · exact putTag_kept called finished

theorem flushUnsent_tags {fs next : Spcfsys} {index fid : Nat} (kept : TagsKept fs [])
    (flushed : flushUnsent fs index fid = some next) : TagsKept next [] := by
  unfold flushUnsent at flushed
  split at flushed
  · simp only [Option.some.injEq] at flushed
    subst next
    exact kept
  · split at flushed
    · refine callback_kept ?_ flushed
      refine kept.moved rfl ?_
      refine (List.Sublist.map label ?_).subperm
      simp only [Spcfsys.outstanding, List.nil_append, List.append_assoc]
      exact (List.eraseIdx_sublist _ _).append (List.Sublist.refl _)
    · simp only [Option.some.injEq] at flushed
      subst next
      exact kept

theorem label_markFlushed (reqs : List Spcreq) (index : Nat) :
    (reqs.modify index Spcreq.markFlushed).map label = reqs.map label := by
  apply List.ext_getElem?
  intro position
  simp only [List.getElem?_map, List.getElem?_modify]
  cases reqs[position]? with
  | none => rfl
  | some req =>
      simp only [Option.map_eq_map, Option.map_some]
      split <;> rfl

/-- A request that takes a tag finds room in the tag pool. -/
def TagRoom (fs : Spcfsys) : FsysEvent → Prop
  | .rpcnb tc around => fs.connected = true → around.allocates = true → tc.type ≠ Tversion →
      fs.tagpool.HasRoom around.grows
  | .flushRequest index _ around => ∀ req, fs.sent[index]? = some req → req.flushed = false →
      fs.connected = true → around.allocates = true → fs.tagpool.HasRoom around.grows
  | _ => True

theorem spcFlushRequest_tags {fs next : Spcfsys} {index : Nat} {polling : Bool}
    {around : Surroundings} (kept : TagsKept fs [])
    (room : TagRoom fs (.flushRequest index polling around))
    (flushed : spcFlushRequest fs index polling around = some next) : TagsKept next [] := by
  unfold spcFlushRequest at flushed
  split at flushed
  · simp only [Option.some.injEq] at flushed
    subst next
    exact kept
  · rename_i req found
    split at flushed
    · simp only [Option.some.injEq] at flushed
      subst next
      exact kept
    · rename_i waiting
      have marked : ∀ flushing, TagsKept { fs with
          sent := fs.sent.modify index Spcreq.markFlushed
          flushing := flushing } [] := by
        intro flushing
        refine kept.moved rfl (List.Perm.subperm (List.Perm.of_eq ?_))
        simp only [labels, Spcfsys.outstanding, List.nil_append, List.map_append, label_markFlushed]
      have available := fun connected allocates =>
        room req found (by simpa using waiting) connected allocates
      split at flushed
      · exact spcRpcnb_tags (marked fs.flushing)
          (fun connected allocates _ => available connected allocates) flushed
      · exact spcRpcnb_tags (marked (req.ref :: fs.flushing))
          (fun connected allocates _ => available connected allocates) flushed

theorem step_tags (fs : Spcfsys) (event : FsysEvent) (next : Spcfsys) (kept : TagsKept fs [])
    (room : TagRoom fs event) (stepped : fs.step event = some next) : TagsKept next [] := by
  cases event with
  | rpcnb tc around => exact spcRpcnb_tags kept room stepped
  | write socket => exact spcFdWrite_tags kept stepped
  | reply tag => exact spcFdRead_tags kept stepped
  | flushUnsent index fid => exact flushUnsent_tags kept stepped
  | flushRequest index polling around => exact spcFlushRequest_tags kept room stepped
  | flushAnswered ref =>
      simp only [Spcfsys.step] at stepped
      split at stepped
      · refine spcRequestFlushed_kept ?_ stepped
        exact kept.unlinked rfl (List.Perm.refl _)
      · contradiction
  | disconnect =>
      simp only [Spcfsys.step, Option.some.injEq] at stepped
      subst next
      exact spcDisconnectFsys_tags kept

theorem spcCreateFsys_tags : TagsKept spcCreateFsys [] := by
  refine ⟨spcCreatePool_sized _, rfl, ?_, List.nodup_nil, ?_⟩
  · intro pair member
    exact absurd member List.not_mem_nil
  · intro tag member
    exact absurd member List.not_mem_nil

/-- Every request but a Tversion has a tag of its own that is not NOTAG. -/
def TagsUnique (fs : Spcfsys) : Prop :=
  ((fs.outstanding.filter (·.tc.type ≠ Tversion)).map Spcreq.tag).Nodup ∧
    ∀ req ∈ fs.outstanding, req.tc.type ≠ Tversion → req.tag ≠ NOTAG

theorem TagsKept.unique {fs : Spcfsys} (kept : TagsKept fs []) : TagsUnique fs := by
  have typed : ∀ req ∈ fs.outstanding, req.tc.type ≠ Tversion → req.tag ≠ NOTAG := by
    intro req member
    exact kept.typed (label req) (List.mem_map_of_mem member)
  refine ⟨?_, typed⟩
  have distinct := kept.distinct
  simp only [poolTags, labels, List.nil_append, List.map_map, List.filter_map] at distinct
  have pooled : fs.outstanding.filter (·.tc.type ≠ Tversion) =
      (fs.outstanding.filter ((· ≠ NOTAG) ∘ (Prod.snd ∘ label))).filter (·.tc.type ≠ Tversion) := by
    rw [List.filter_filter]
    apply List.filter_congr
    intro req member
    by_cases version : req.tc.type = Tversion
    · simp [version]
    · have tag := typed req member version
      simp [version, label, tag]
  rw [pooled]
  exact distinct.sublist (List.filter_sublist.map Spcreq.tag)

/-- The pool gives each caller a right answer exactly while it is not exhausted, and then
the identifiers held are distinct; and so are the tags of the requests outstanding. -/
theorem spcPool_unique (maxid : UInt32) (uses : List PoolEvent) (calls : List FsysEvent) :
    (EveryStep PoolUse.step PoolUse.Answers (PoolUse.fresh maxid) uses ↔
      Guarded PoolUse.step PoolUse.Unexhausted (PoolUse.fresh maxid) uses) ∧
    (Guarded PoolUse.step PoolUse.Unexhausted (PoolUse.fresh maxid) uses →
      ∀ use, run PoolUse.step (PoolUse.fresh maxid) uses = some use →
        use.held.Nodup ∧ ∀ id ∈ use.held, id < use.pool.maxid.toNat) ∧
    (Guarded Spcfsys.step TagRoom spcCreateFsys calls →
      ∀ fs, run Spcfsys.step spcCreateFsys calls = some fs → TagsUnique fs) := by
  refine ⟨?_, ?_, ?_⟩
  · exact everyStep_iff_guarded PoolUse.step
      (fun use event next valid => use.step_valid next event valid)
      (fun use event next valid _ => use.answers_iff next event valid)
      PoolUse.step_undefined uses (PoolUse.fresh_valid maxid)
  · intro unexhausted use ran
    have valid := run_invariant PoolUse.step
      (fun use event next valid => use.step_valid next event valid)
      (PoolUse.fresh_valid maxid) unexhausted ran
    exact ⟨valid.distinct, valid.below⟩
  · intro room fs ran
    exact (run_invariant Spcfsys.step step_tags spcCreateFsys_tags room ran).unique

theorem spcPool_unique_first_calls :
    EveryStep PoolUse.step PoolUse.Answers (PoolUse.fresh 256) [.get true, .put 0] ∧
      ∀ fs, run Spcfsys.step spcCreateFsys
        [.rpcnb ⟨116, 1, List.replicate 23 0⟩ ⟨true, true, .takes 3⟩, .write (.takes 20)] = some fs →
          TagsUnique fs := by
  obtain ⟨answers, _, tags⟩ := spcPool_unique 256 [.get true, .put 0]
    [.rpcnb ⟨116, 1, List.replicate 23 0⟩ ⟨true, true, .takes 3⟩, .write (.takes 20)]
  constructor
  · apply answers.mpr
    exact ⟨Or.inl (Or.inl (by decide)), fun _ _ => ⟨trivial, fun _ _ => trivial⟩⟩
  · apply tags
    exact ⟨fun _ _ _ => Or.inl (by decide), fun _ _ => ⟨trivial, fun _ _ => trivial⟩⟩

theorem fullPool_answer :
    (run PoolUse.step (PoolUse.fresh 256) (List.replicate 256 (.get true))).map (fun use =>
        ((spcGetId use.pool true).1, use.held.length, use.pool.maxid, decide (32 ∈ use.held))) =
      some (32, 256, 256, true) := by
  decide +kernel

/-- The 257th caller of a pool of 256 gets the size of the bitmap, which another holds. -/
theorem fullPool_repeats :
    ¬ EveryStep PoolUse.step PoolUse.Answers (PoolUse.fresh 256)
      (List.replicate 256 (.get true) ++ [.get true]) := by
  intro every
  obtain ⟨use, ran, answer⟩ := Option.map_eq_some_iff.mp fullPool_answer
  simp only [Prod.mk.injEq, decide_eq_true_eq] at answer
  have last := (everyStep_append PoolUse.step every ran _ rfl).1
  have limit : use.pool.maxid.toNat = 256 := by
    rw [answer.2.2.1]
    rfl
  simp [PoolUse.Answers, answer.1, answer.2.1, limit] at last

end Xcpu.Libspclient
