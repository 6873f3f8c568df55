import Xcpu.Libspfs.FileLog

/-!
Exclusive opens. The flag of a file is raised by an open or create with Oexcl; nothing lowers it,
neither a failure of the open nor the end of the fid.
-/

namespace Xcpu.Libspfs.File

open Xcpu.Keyed Xcpu.Transition

section Flags

variable {State User Group : Type} {tree next third : Files State User Group} {ref : Nat}

/-- The files are the same ones, with the same flags, and none has come back to life. -/
structure SameFlags (tree next : Files State User Group) : Prop where
  refs : next.files.map Spfile.ref = tree.files.map Spfile.ref
  count : next.next = tree.next
  excl : ∀ ref, (next.file ref).map Spfile.excl = (tree.file ref).map Spfile.excl
  live : ∀ ref file, next.file ref = some file → file.live → ∃ old, tree.file ref = some old ∧ old.live

theorem SameFlags.refl (tree : Files State User Group) : SameFlags tree tree :=
  ⟨rfl, rfl, fun _ => rfl, fun _ file found live => ⟨file, found, live⟩⟩

theorem SameFlags.trans (one : SameFlags tree next) (two : SameFlags next third) : SameFlags tree third where
  refs := two.refs.trans one.refs
  count := two.count.trans one.count
  excl ref := (two.excl ref).trans (one.excl ref)
  live ref file found live := by
    obtain ⟨mid, between, alive⟩ := two.live ref file found live
    exact one.live ref mid between alive

theorem SameFlags.files (same : next.files = tree.files) (later : next.next = tree.next) : SameFlags tree next where
  refs := congrArg _ same
  count := later
  excl ref := by rw [Files.file, Files.file, same]
  live ref file found live := ⟨file, by rw [Files.file, same] at found; exact found, live⟩

theorem file_set (change : Spfile User Group → Spfile User Group) (same : ∀ file, (change file).ref = file.ref)
    (other : Nat) : (tree.set ref change).file other =
      (tree.file other).map fun file => if file.ref = ref then change file else file :=
  find?_update same other

theorem SameFlags.set {change : Spfile User Group → Spfile User Group}
    (same : ∀ file, (change file).ref = file.ref ∧ (change file).excl = file.excl)
    (live : ∀ file, tree.file ref = some file → (change file).live → file.live) : SameFlags tree (tree.set ref change) where
  refs := update_map _ fun file => (same file).1
  count := rfl
  excl other := by
    rw [file_set change fun file => (same file).1, Option.map_map]
    congr 1
    funext file
    simp only [Function.comp_apply]
    split
    · exact (same file).2
    · rfl
  live other file found alive := by
    rw [file_set change fun file => (same file).1] at found
    obtain ⟨old, before, here⟩ := Option.map_eq_some_iff.mp found
    refine ⟨old, before, ?_⟩
    split at here
    · rename_i number
      obtain rfl := (find?_key before).2
      subst here
      exact live old (number ▸ before) alive
    · exact here ▸ alive

theorem spfileIncref_flags (tree : Files State User Group) (ref : Nat) : SameFlags tree (spfileIncref tree ref) := by
  rw [spfileIncref]
  split
  · exact .files rfl rfl
  · split
    · exact .set (fun _ => ⟨rfl, rfl⟩) fun _ _ live => live
    · exact .files rfl rfl

theorem spfileDecref_flags (tree : Files State User Group) (ref : Nat) : SameFlags tree (spfileDecref tree ref) := by
  rw [spfileDecref]
  split
  · exact .files rfl rfl
  · rename_i file found
    split
    · rename_i live
      refine .set (fun _ => ⟨rfl, rfl⟩) fun other there _ => ?_
      exact Option.some.inj (found.symm.trans there) ▸ live
    · exact .files rfl rfl

theorem spfileIncref?_flags (tree : Files State User Group) (ref : Option Nat) :
    SameFlags tree (spfileIncref? tree ref) := by
  cases ref with
  | none => exact .refl tree
  | some ref => exact spfileIncref_flags tree ref

theorem spfileDecref?_flags (tree : Files State User Group) (ref : Option Nat) :
    SameFlags tree (spfileDecref? tree ref) := by
  cases ref with
  | none => exact .refl tree
  | some ref => exact spfileDecref_flags tree ref

theorem findFrom_flags (tree : Files State User Group) (name : List UInt8) (children : List Nat) :
    SameFlags tree (findFrom tree name children).2 := by
  induction children generalizing tree with
  | nil => exact .refl tree
  | cons child rest ih =>
      rw [findFrom]
      split
      · exact spfileIncref_flags tree child
      · exact ((spfileIncref_flags tree child).trans (spfileDecref_flags _ child)).trans (ih _)

theorem readEntries_flags (ops : Fileops State User Group) (tree : Files State User Group) (count n : Nat)
    (entries : List Nat) : SameFlags tree (readEntries ops tree count n entries).1 := by
  induction entries generalizing tree n with
  | nil => exact .refl tree
  | cons cf later ih =>
      rw [readEntries]
      split
      · exact .files rfl rfl
      · split
        · exact ((spfileIncref?_flags tree later.head?).trans (spfileDecref_flags _ cf)).trans (ih _ _)
        · exact .refl tree

theorem readStart_flags (tree : Files State User Group) (f : Spfilefid) (dir offset : Nat) :
    SameFlags tree (readStart tree f dir offset).1 := by
  rw [readStart]
  split
  · exact (spfileDecref?_flags tree f.dirent).trans (spfileIncref?_flags _ _)
  · split
    · exact .refl tree
    · exact .refl tree

theorem truncate_flags (ops : Fileops State User Group) (tree : Files State User Group) (file : Spfile User Group) :
    SameFlags tree (truncate ops tree file).1 := by
  rw [truncate]
  split
  · exact .refl tree
  · dsimp only
    split
    · exact .files rfl rfl
    · dsimp only
      refine SameFlags.trans ?_ (.set (fun _ => ⟨rfl, rfl⟩) fun _ _ live => live)
      exact .files rfl rfl

theorem openFile_flags (ops : Fileops State User Group) (tree : Files State User Group) (file : Spfile User Group)
    (f : Spfilefid) : SameFlags tree (openFile ops tree file f).1 := by
  rw [openFile]
  split
  · exact .refl tree
  · exact .files rfl rfl

theorem spfileFind_flags (ops : Fileops State User Group) (tree : Files State User Group) (dir : Spfile User Group)
    (name : List UInt8) : SameFlags tree (spfileFind ops tree dir name).2.1 := by
  rw [spfileFind]
  split
  · exact .refl tree
  · split
    · exact .files rfl rfl
    · split
      · exact findFrom_flags tree name _
      · exact .refl tree

theorem spfileFiddestroy_flags (ops : Fileops State User Group) (tree : Files State User Group)
    (aux : Option Spfilefid) : SameFlags tree (spfileFiddestroy ops tree aux) := by
  cases aux with
  | none => exact .refl tree
  | some f =>
      rw [spfileFiddestroy]
      split
      · exact .files rfl rfl
      · refine SameFlags.trans ?_ (spfileDecref_flags _ _)
        split
        · exact .refl tree
        · refine SameFlags.trans ?_ (spfileDecref?_flags _ _)
          split
          · exact .refl tree
          · exact .files rfl rfl

end Flags

section Callbacks

variable {State User Group : Type} {ops : Fileops State User Group} {tree : Files State User Group} {f : Spfilefid}

/-- A callback that opens nothing: the fid is open if it was, and then on the same file. -/
structure KeepsMode {Value : Type} (tree : Files State User Group) (f : Spfilefid)
    (back : Back (Files State User Group) Spfilefid Value) : Prop where
  flags : SameFlags tree back.tree
  omode : (back.aux.getD f).omode = f.omode
  file : f.omode ≠ none → (back.aux.getD f).file = f.file

theorem KeepsMode.same {Value : Type} {next : Files State User Group} {value : Option Value} {error : Bool}
    (flags : SameFlags tree next) : KeepsMode tree f ⟨next, some f, value, error⟩ :=
  ⟨flags, rfl, fun _ => rfl⟩

theorem faulted_flags : SameFlags tree tree.faulted := .files rfl rfl

theorem called_flags {Value : Type} (back : Called State Value) : SameFlags tree (tree.called back) := .files rfl rfl

theorem spfileRead_mode (fid offset count : Nat) : KeepsMode tree f (spfileRead ops tree fid (some f) offset count) := by
  rw [spfileRead]
  rcases withFile_cases tree (some f) _ with failed | ⟨f', file, held, found, live, same⟩
  · rw [failed]
    exact .same faulted_flags
  · obtain rfl := Option.some.inj held
    rw [same]
    split
    · split
      · exact .same (.refl tree)
      · have start := readStart_flags tree f file.ref offset
        generalize readStart tree f file.ref offset = started at start ⊢
        obtain ⟨mid, entries⟩ := started
        have more := readEntries_flags ops mid count 0 entries
        dsimp only at start ⊢
        generalize readEntries ops mid count 0 entries = read at more ⊢
        obtain ⟨last, dirent, n⟩ := read
        exact ⟨start.trans (more.trans (.files rfl rfl)), rfl, fun _ => rfl⟩
    · split
      · exact .same (.refl tree)
      · exact .same (.files rfl rfl)

variable [DecidableEq User]

theorem spfileWalk_mode (user : Option User) (name : List UInt8) (shut : f.omode = none) :
    KeepsMode tree f (spfileWalk ops tree user (some f) name) := by
  rw [spfileWalk]
  rcases withFile_cases tree (some f) _ with failed | ⟨f', dir, held, found, live, same⟩
  · rw [failed]
    exact .same faulted_flags
  · obtain rfl := Option.some.inj held
    rw [same]
    split
    · have flags := spfileFind_flags ops tree dir name
      split
      · rename_i last error missing
        rw [missing] at flags
        exact .same flags
      · rename_i nfile last error there
        rw [there] at flags
        exact ⟨flags.trans (spfileDecref_flags _ _), rfl, fun opened => (opened shut).elim⟩
    · exact .same (.refl tree)

theorem spfileRemove_mode (user : Option User) : KeepsMode tree f (spfileRemove ops tree user (some f)) := by
  rw [spfileRemove]
  rcases withFile_cases tree (some f) _ with failed | ⟨f', file, held, found, live, same⟩
  · rw [failed]
    exact .same faulted_flags
  · obtain rfl := Option.some.inj held
    rw [same]
    split
    · exact .same (.refl tree)
    · split
      · exact .same faulted_flags
      · split
        · exact .same (.refl tree)
        · split
          · exact .same (.refl tree)
          · dsimp only
            split
            · exact .same (called_flags _)
            · split
              · exact .same (called_flags _)
              · refine .same (SameFlags.trans ?_ ((spfileDecref_flags _ _).trans (spfileDecref_flags _ _)))
                refine SameFlags.trans ?_ (.set (fun _ => ⟨rfl, rfl⟩) fun _ _ live => live)
                exact called_flags _

end Callbacks

section Claim

variable {State User Group : Type} [DecidableEq User] (ops : Fileops State User Group)

/-- The fid is open on this file with Oexcl. An open that is refused leaves its `omode` as it was. -/
def Spfilefid.owns (ref : Nat) (f : Spfilefid) : Nat :=
  if f.file = ref ∧ f.omode.any (· &&& Oexcl ≠ 0) then 1 else 0

def World.owners (world : World State User Group) (ref : Nat) : Nat :=
  weight (fun f : Fid User => f.aux.owns ref) world.fids

/-- The fid is opened: the callback answers, and sets no error. -/
def World.Opens (world : World State User Group) (fid mode : Nat) : Prop :=
  ∃ f, world.find fid = some f ∧ f.omode = none ∧
    (spfileOpen ops world.tree f.user (some f.aux) mode).value ≠ none ∧
    (spfileOpen ops world.tree f.user (some f.aux) mode).error = false

/-- The flag of each file is up exactly when there is one fid that has it open with Oexcl, and there
are never two. An open with Oexcl succeeds only without such a fid, and leaves the flags alone if it fails. -/
structure ExclSafe (world : World State User Group) (event : FileEvent User) (next : World State User Group) : Prop where
  flags : ∀ ref file, next.tree.file ref = some file → file.live → next.owners ref = if file.excl then 1 else 0
  alone : ∀ fid mode f, event = .openfid fid mode → mode &&& Oexcl ≠ 0 → world.Opens ops fid mode →
    world.find fid = some f → world.owners f.aux.file = 0
  failed : ∀ fid mode, event = .openfid fid mode → mode &&& Oexcl ≠ 0 → ¬ world.Opens ops fid mode →
    ∀ ref, (next.tree.file ref).map Spfile.excl = (world.tree.file ref).map Spfile.excl

/-- The operations of the file let the open go through once the flag is up. -/
def completes (tree : Files State User Group) (file : Spfile User Group) (f : Spfilefid) (mode : Nat) : Prop :=
  file.isDir ∨
    let (tree, truncated, error) := if mode &&& Otrunc ≠ 0 then truncate ops tree file else (tree, true, false)
    truncated ∧ error = false ∧ (openFile ops tree file f).2 = (true, false)

/-- The tree once an open or create got past its checks. -/
def raise (tree : Files State User Group) (ref mode : Nat) : Files State User Group :=
  if mode &&& Oexcl ≠ 0 then tree.set ref fun file => { file with excl := true } else tree

/-- The fid of an open that got past its checks. -/
def Spfilefid.opening (f : Spfilefid) (file : Spfile User Group) (user : Option User) (mode : Nat) : Spfilefid :=
  { f with granted := File.granted ops file user, omode := some mode }

/-- No open with Oexcl fails after its checks, and no fid that has a file open with Oexcl goes unless
the file goes with it. -/
def World.ExclAllowed (world : World State User Group) : FileEvent User → Prop
  | .openfid fid mode => ∀ f file, world.find fid = some f → f.omode = none → world.tree.file f.aux.file = some file →
      file.live → mode &&& Oexcl ≠ 0 → spfileCheckperm ops file f.user (mode2perm mode) → file.excl = false →
        completes ops (raise world.tree file.ref mode) file (f.aux.opening ops file f.user mode) mode
  | .destroy fid => ∀ f file, world.find fid = some f → f.aux.owns f.aux.file = 1 →
      world.tree.file f.aux.file = some file → file.live → file.refcount = 1
  | _ => True

end Claim

section Open

variable {State User Group : Type} [DecidableEq User] {ops : Fileops State User Group}
  {tree : Files State User Group} {f : Spfilefid} {user : Option User} {mode : Nat}

theorem spfileOpen_cases :
    (KeepsMode tree f (spfileOpen ops tree user (some f) mode) ∧ (spfileOpen ops tree user (some f) mode).value = none) ∨
    ∃ file, tree.file f.file = some file ∧ file.live ∧ spfileCheckperm ops file user (mode2perm mode) ∧
      ¬ (mode &&& Oexcl ≠ 0 ∧ file.excl) ∧
      SameFlags (raise tree file.ref mode) (spfileOpen ops tree user (some f) mode).tree ∧
      (∃ opened, (spfileOpen ops tree user (some f) mode).aux = some opened ∧ opened.file = f.file ∧
        opened.omode = some mode) ∧
      (completes ops (raise tree file.ref mode) file (f.opening ops file user mode) mode →
        (spfileOpen ops tree user (some f) mode).value ≠ none ∧ (spfileOpen ops tree user (some f) mode).error = false) := by
  rw [spfileOpen]
  rcases withFile_cases tree (some f) _ with failed | ⟨f', file, held, found, live, same⟩
  · rw [failed]
    exact .inl ⟨.same faulted_flags, rfl⟩
  · obtain rfl := Option.some.inj held
    rw [same]
    split
    · exact .inl ⟨⟨.refl tree, rfl, fun _ => rfl⟩, rfl⟩
    · rename_i permitted
      split
      · exact .inl ⟨⟨.refl tree, rfl, fun _ => rfl⟩, rfl⟩
      · rename_i free
        refine .inr ⟨file, found, live, by simpa using permitted, free, ?_⟩
        dsimp only
        rw [← raise, completes]
        split
        · exact ⟨.refl _, ⟨_, rfl, rfl, rfl⟩, fun _ => ⟨by simp, rfl⟩⟩
        · rename_i plain
          have truncated : SameFlags (raise tree file.ref mode) (if mode &&& Otrunc ≠ 0 then
              truncate ops (raise tree file.ref mode) file else (raise tree file.ref mode, true, false)).1 := by
            split
            · exact truncate_flags ops _ file
            · exact .refl _
          generalize (if mode &&& Otrunc ≠ 0 then truncate ops (raise tree file.ref mode) file
            else (raise tree file.ref mode, true, false)) = result at truncated ⊢
          obtain ⟨mid, done, error⟩ := result
          dsimp only at truncated ⊢
          cases done with
          | false => exact ⟨truncated, ⟨_, rfl, rfl, rfl⟩, by simp [plain]⟩
          | true =>
              have opened := openFile_flags ops mid file (f.opening ops file user mode)
              rw [if_pos rfl]
              simp only [Spfilefid.opening] at opened ⊢
              generalize openFile ops mid file { f with granted := granted ops file user, omode := some mode } =
                answer at opened ⊢
              obtain ⟨last, accepted, more⟩ := answer
              refine ⟨truncated.trans opened, ⟨_, rfl, rfl, rfl⟩, ?_⟩
              rintro (directory | ⟨-, clean, same⟩)
              · exact (plain directory).elim
              · obtain ⟨rfl, rfl⟩ := Prod.mk.inj same
                exact ⟨by simp, by simp [clean]⟩

theorem spfileCreate_made {name : List UInt8} {perm : Nat} :
    (KeepsMode tree f (spfileCreate ops tree user (some f) name perm mode) ∧
      (spfileCreate ops tree user (some f) name perm mode).value = none) ∨
    ∃ mid dir file, SameFlags tree mid ∧ file.ref = mid.next ∧ file.excl = decide (mode &&& Oexcl ≠ 0) ∧
      SameFlags (mid.add dir file) (spfileCreate ops tree user (some f) name perm mode).tree ∧
      (∃ opened, (spfileCreate ops tree user (some f) name perm mode).aux = some opened ∧ opened.file = file.ref ∧
        opened.omode = some mode) ∧
      (spfileCreate ops tree user (some f) name perm mode).value ≠ none := by
  rw [spfileCreate]
  rcases withFile_cases tree (some f) _ with failed | ⟨f', dir, held, found, live, same⟩
  · rw [failed]
    exact .inl ⟨.same faulted_flags, rfl⟩
  · obtain rfl := Option.some.inj held
    rw [same]
    have flags := spfileFind_flags ops tree dir name
    generalize spfileFind ops tree dir name = result at flags ⊢
    obtain ⟨there, mid, error⟩ := result
    dsimp only at flags ⊢
    split
    · rename_i same
      obtain ⟨rfl, rfl⟩ := Prod.mk.inj (Prod.mk.inj same).2
      exact .inl ⟨.same flags, rfl⟩
    · rename_i same
      obtain ⟨rfl, rfl⟩ := Prod.mk.inj (Prod.mk.inj same).2
      exact .inl ⟨.same flags, rfl⟩
    · rename_i same
      obtain ⟨rfl, rfl⟩ := Prod.mk.inj (Prod.mk.inj same).2
      split
      · exact .inl ⟨.same flags, rfl⟩
      · split
        · exact .inl ⟨.same flags, rfl⟩
        · split
          · exact .inl ⟨.same flags, rfl⟩
          · split
            · exact .inl ⟨.same flags, rfl⟩
            · split
              · exact .inl ⟨.same (flags.trans (called_flags _)), rfl⟩
              · rename_i create made fmode answered
                right
                split
                · exact ⟨_, dir.ref, _, flags.trans (called_flags _), rfl, rfl, .refl _, ⟨_, rfl, rfl, rfl⟩, by simp⟩
                · exact ⟨_, dir.ref, _, flags.trans (called_flags _), rfl, rfl, openFile_flags ops _ _ _,
                    ⟨_, rfl, rfl, rfl⟩, by simp⟩

end Open

section Invariant

variable {State User Group : Type} {world : World State User Group} {f : Fid User}

structure World.Exclusive (world : World State User Group) : Prop where
  numbers : (world.fids.map Fid.fid).Nodup
  fresh : ∀ file ∈ world.tree.files, file.ref < world.tree.next
  used : ∀ f ∈ world.fids, f.aux.omode ≠ none → f.aux.file < world.tree.next
  shut : ∀ f ∈ world.fids, f.omode = none → f.aux.omode = none
  flags : ∀ ref file, world.tree.file ref = some file → file.live → world.owners ref = if file.excl then 1 else 0

theorem owns_shut {aux : Spfilefid} (shut : aux.omode = none) (ref : Nat) : aux.owns ref = 0 := by
  simp [Spfilefid.owns, shut]

theorem owns_same {one two : Spfilefid} (omode : two.omode = one.omode) (file : one.omode ≠ none → two.file = one.file)
    (ref : Nat) : two.owns ref = one.owns ref := by
  by_cases shut : one.omode = none
  · rw [owns_shut shut, owns_shut (omode.trans shut)]
  · rw [Spfilefid.owns, Spfilefid.owns, omode, file shut]

theorem World.Exclusive.fresh_refs (exclusive : world.Exclusive) {tree : Files State User Group}
    (refs : tree.files.map Spfile.ref = world.tree.files.map Spfile.ref) (count : tree.next = world.tree.next) :
    ∀ file ∈ tree.files, file.ref < tree.next := by
  intro file member
  have listed : file.ref ∈ tree.files.map Spfile.ref := List.mem_map_of_mem member
  rw [refs] at listed
  obtain ⟨old, inside, same⟩ := List.mem_map.mp listed
  rw [count, ← same]
  exact exclusive.fresh old inside

theorem World.Exclusive.fresh_flags (exclusive : world.Exclusive) {tree : Files State User Group}
    (flags : SameFlags world.tree tree) : ∀ file ∈ tree.files, file.ref < tree.next :=
  exclusive.fresh_refs flags.refs flags.count

theorem World.Exclusive.flags_same (exclusive : world.Exclusive) {tree : Files State User Group} {ref : Nat}
    {file : Spfile User Group} (flags : SameFlags world.tree tree) (found : tree.file ref = some file) (live : file.live) :
    world.owners ref = if file.excl then 1 else 0 := by
  obtain ⟨old, before, alive⟩ := flags.live ref file found live
  have same := flags.excl ref
  rw [found, before] at same
  rw [Option.some.inj same]
  exact exclusive.flags ref old before alive

theorem World.owners_update (numbers : (world.fids.map Fid.fid).Nodup) (member : f ∈ world.fids) {omode : Option Nat}
    {aux : Spfilefid} {tree : Files State User Group} (ref : Nat) :
    World.owners { tree, fids := update Fid.fid world.fids f.fid fun f => { f with omode, aux } } ref + f.aux.owns ref =
      world.owners ref + aux.owns ref :=
  weight_update numbers member

theorem World.Exclusive.after {Value : Type} {omode : Option Nat} {back : Back (Files State User Group) Spfilefid Value}
    (exclusive : world.Exclusive) (member : f ∈ world.fids) (keeps : KeepsMode world.tree f.aux back)
    (shut : omode = none → f.aux.omode = none) : (world.after f.fid omode back).Exclusive := by
  rw [World.after_eq exclusive.numbers member]
  refine ⟨?_, exclusive.fresh_flags keeps.flags, ?_, ?_, ?_⟩
  · rw [update_map Fid.fid (by intro item; rfl)]
    exact exclusive.numbers
  · intro g inside opened
    obtain ⟨old, before, rfl⟩ := mem_update.mp inside
    dsimp only
    rw [keeps.flags.count]
    split at opened
    · rename_i here
      rw [if_pos here]
      have was : f.aux.omode ≠ none := keeps.omode ▸ opened
      rw [keeps.file was]
      exact exclusive.used f member was
    · rename_i other
      rw [if_neg other]
      exact exclusive.used old before opened
  · intro g inside closed
    obtain ⟨old, before, rfl⟩ := mem_update.mp inside
    split at closed
    · rename_i here
      rw [if_pos here]
      exact keeps.omode.trans (shut closed)
    · rename_i other
      rw [if_neg other]
      exact exclusive.shut old before closed
  · intro ref file found live
    rw [← exclusive.flags_same keeps.flags found live]
    have moved := @World.owners_update _ _ _ world f exclusive.numbers member omode (back.aux.getD f.aux) back.tree ref
    rw [owns_same keeps.omode keeps.file] at moved
    omega

theorem World.Exclusive.joined {Value : Type} {fid : Nat} {user : Option User}
    {back : Back (Files State User Group) Spfilefid Value} (exclusive : world.Exclusive) (fresh : world.find fid = none)
    (flags : SameFlags world.tree back.tree) (closed : ∀ aux, back.aux = some aux → aux.omode = none) :
    (world.joined fid user back).Exclusive := by
  have quiet : World.Exclusive { tree := back.tree, fids := world.fids } := by
    refine ⟨exclusive.numbers, exclusive.fresh_flags flags, fun g inside opened => ?_, exclusive.shut, ?_⟩
    · rw [flags.count]
      exact exclusive.used g inside opened
    · intro ref file found live
      exact exclusive.flags_same flags found live
  rw [World.joined]
  split
  · rename_i value aux answered held
    have shut := closed aux held
    refine ⟨?_, quiet.fresh, ?_, ?_, ?_⟩
    · rw [List.map_append, List.nodup_append]
      refine ⟨exclusive.numbers, List.nodup_singleton _, ?_⟩
      intro number inside other single same
      obtain ⟨g, member, rfl⟩ := List.mem_map.mp inside
      rw [List.map_singleton, List.mem_singleton] at single
      have number : g.fid = fid := same.trans single
      exact find?_none_iff.mp fresh (number ▸ List.mem_map_of_mem member)
    · intro g inside opened
      rcases List.mem_append.mp inside with before | new
      · exact quiet.used g before opened
      · rw [List.mem_singleton.mp new] at opened
        exact (opened shut).elim
    · intro g inside closed
      rcases List.mem_append.mp inside with before | new
      · exact exclusive.shut g before closed
      · rw [List.mem_singleton.mp new]
        exact shut
    · intro ref file found live
      rw [← quiet.flags ref file found live, World.owners, World.owners, weight_append, weight, weight, owns_shut shut]
      rfl
  · exact quiet

theorem World.Exclusive.opened {Value : Type} {mode : Nat} {aux : Spfilefid}
    {back : Back (Files State User Group) Spfilefid Value} (exclusive : world.Exclusive) (member : f ∈ world.fids)
    (shut : f.aux.omode = none) (held : back.aux = some aux)
    (fresh : ∀ file ∈ back.tree.files, file.ref < back.tree.next) (later : world.tree.next ≤ back.tree.next)
    (used : aux.file < back.tree.next)
    (flags : ∀ ref file, back.tree.file ref = some file → file.live →
      world.owners ref + aux.owns ref = if file.excl then 1 else 0) :
    (world.after f.fid (some mode) back).Exclusive := by
  rw [World.after_eq exclusive.numbers member, held, Option.getD_some]
  refine ⟨?_, fresh, ?_, ?_, ?_⟩
  · rw [update_map Fid.fid (by intro item; rfl)]
    exact exclusive.numbers
  · intro g inside opened
    obtain ⟨old, before, rfl⟩ := mem_update.mp inside
    dsimp only
    split at opened
    · rename_i here
      rw [if_pos here]
      exact used
    · rename_i other
      rw [if_neg other]
      exact Nat.lt_of_lt_of_le (exclusive.used old before opened) later
  · intro g inside closed
    obtain ⟨old, before, rfl⟩ := mem_update.mp inside
    split at closed
    · cases closed
    · rename_i other
      rw [if_neg other]
      exact exclusive.shut old before closed
  · intro ref file found live
    rw [← flags ref file found live]
    have moved := @World.owners_update _ _ _ world f exclusive.numbers member (some mode) aux back.tree ref
    rw [owns_shut shut] at moved
    omega

theorem World.Exclusive.unowned (exclusive : world.Exclusive) {ref : Nat} (unused : world.tree.next ≤ ref) :
    world.owners ref = 0 := by
  apply weight_eq_zero
  intro g member
  rw [Spfilefid.owns, if_neg]
  rintro ⟨same, opened⟩
  have below := exclusive.used g member fun shut => by simp [shut] at opened
  omega

/-- The file has one reference at most, if it is there at all. -/
def Last (tree : Files State User Group) (ref : Nat) : Prop :=
  ∀ file, tree.file ref = some file → file.live → file.refcount = 1

theorem spfileDecref_last {tree : Files State User Group} {ref : Nat} (other : Nat) (last : Last tree ref) :
    Last (spfileDecref tree other) ref ∧
      (other = ref → ∀ file, (spfileDecref tree other).file ref = some file → ¬ file.live) := by
  rw [spfileDecref]
  split
  · rename_i missing
    refine ⟨last, ?_⟩
    rintro rfl file found
    exact absurd (missing.symm.trans found) (by simp)
  · rename_i first there
    split
    · rename_i present
      have at_ref (file : Spfile User Group) (found : (tree.set other fun file => { file with
          refcount := file.refcount - 1, live := decide (file.refcount - 1 ≠ 0) }).file ref = some file)
          (live : file.live) : other ≠ ref ∧ file.refcount = 1 := by
        rw [file_set _ (by intro item; rfl)] at found
        obtain ⟨old, before, rfl⟩ := Option.map_eq_some_iff.mp found
        obtain ⟨-, number⟩ := find?_key before
        split at live
        · rename_i here
          have more : old.refcount - 1 ≠ 0 := of_decide_eq_true live
          have same : tree.file other = some old := by
            rw [← here, number]
            exact before
          have alive : old.live := Option.some.inj (there.symm.trans same) ▸ present
          have one := last old before alive
          omega
        · rename_i apart
          rw [if_neg apart]
          exact ⟨fun same => apart (number.trans same.symm), last old before live⟩
      refine ⟨fun file found live => (at_ref file found live).2, fun same file found live => ?_⟩
      exact (at_ref file found live).1 same
    · rename_i dead
      refine ⟨last, ?_⟩
      rintro rfl file found
      obtain rfl := Option.some.inj (there.symm.trans found)
      exact dead

theorem spfileDecref?_last {tree : Files State User Group} {ref : Nat} (other : Option Nat) (last : Last tree ref) :
    Last (spfileDecref? tree other) ref := by
  cases other with
  | none => exact last
  | some other => exact (spfileDecref_last other last).1

theorem spfileFiddestroy_last (ops : Fileops State User Group) {tree : Files State User Group} {f : Spfilefid}
    (last : Last tree f.file) (file : Spfile User Group)
    (found : (spfileFiddestroy ops tree (some f)).file f.file = some file) : ¬ file.live := by
  rw [spfileFiddestroy] at found
  split at found
  · rename_i missing
    exact absurd (missing.symm.trans found) (by simp)
  · rename_i old there
    refine (spfileDecref_last old.ref ?_).2 (find?_key there).2 file found
    split
    · exact last
    · refine spfileDecref?_last _ ?_
      split
      · exact last
      · exact last

end Invariant

section Steps

variable {State User Group : Type} [DecidableEq User] {ops : Fileops State User Group} {world : World State User Group}
  {f : Fid User}

theorem open_exclusive {mode : Nat} (exclusive : world.Exclusive) (member : f ∈ world.fids) (shut : f.omode = none) :
    (world.after f.fid (some mode) (spfileOpen ops world.tree f.user (some f.aux) mode)).Exclusive := by
  have closed := exclusive.shut f member shut
  rcases @spfileOpen_cases _ _ _ _ ops world.tree f.aux f.user mode with ⟨keeps, -⟩ |
    ⟨file, found, live, -, free, flags, ⟨opened, held, at_file, omode⟩, -⟩
  · exact exclusive.after member keeps fun _ => closed
  · obtain ⟨inside, number⟩ := find?_key found
    have below : f.aux.file < world.tree.next := number ▸ exclusive.fresh file inside
    have raised : (raise world.tree file.ref mode).files.map Spfile.ref = world.tree.files.map Spfile.ref ∧
        (raise world.tree file.ref mode).next = world.tree.next := by
      rw [raise]
      split
      · exact ⟨update_map _ fun _ => rfl, rfl⟩
      · exact ⟨rfl, rfl⟩
    refine exclusive.opened member closed held ?_ (by rw [flags.count, raised.2]) ?_ ?_
    · exact exclusive.fresh_refs (flags.refs.trans raised.1) (flags.count.trans raised.2)
    · rw [flags.count, raised.2, at_file]
      exact below
    · intro ref new there alive
      obtain ⟨old, before, older⟩ := flags.live ref new there alive
      have same := flags.excl ref
      rw [there, before] at same
      rw [Option.some.inj same]
      rw [raise] at before
      split at before
      · rename_i asks
        rw [file_set _ (by intro item; rfl)] at before
        obtain ⟨first, there, rfl⟩ := Option.map_eq_some_iff.mp before
        have numbered := (find?_key there).2
        split at older
        · rename_i here
          have one : first = file := Option.some.inj (there.symm.trans (by rw [← numbered, here, number]; exact found))
          have owners := exclusive.flags ref first there older
          have down : ¬ first.excl := fun up => free ⟨asks, one ▸ up⟩
          rw [if_neg down] at owners
          have owns : opened.owns ref = 1 := by
            rw [Spfilefid.owns, if_pos ⟨at_file.trans (number.symm.trans (here.symm.trans numbered)), by
              simpa [omode] using asks⟩]
          simp [here, owners, owns]
        · rename_i other
          have owns : opened.owns ref = 0 := by
            rw [Spfilefid.owns, if_neg]
            rintro ⟨same, -⟩
            exact other (numbered.trans (same.symm.trans (at_file.trans number.symm)))
          rw [owns, if_neg other]
          exact exclusive.flags ref first there older
      · rename_i plain
        have owns : opened.owns ref = 0 := by
          rw [Spfilefid.owns, if_neg]
          rintro ⟨-, asks⟩
          exact plain (by simpa [omode] using asks)
        rw [owns]
        exact exclusive.flags ref old before older

theorem create_exclusive {name : List UInt8} {perm mode : Nat} (exclusive : world.Exclusive) (member : f ∈ world.fids)
    (shut : f.omode = none) :
    (world.after f.fid (if (spfileCreate ops world.tree f.user (some f.aux) name perm mode).value.isSome then some mode else none)
      (spfileCreate ops world.tree f.user (some f.aux) name perm mode)).Exclusive := by
  have closed := exclusive.shut f member shut
  rcases @spfileCreate_made _ _ _ _ ops world.tree f.aux f.user mode name perm with ⟨keeps, none⟩ |
    ⟨mid, dir, file, flags, number, excl, made, ⟨opened, held, at_file, omode⟩, answered⟩
  · exact exclusive.after member keeps fun _ => closed
  · rw [if_pos (Option.isSome_iff_ne_none.mpr answered)]
    have listed := flags.trans (spfileIncref_flags mid dir)
    have count : (mid.add dir file).next = world.tree.next + 1 := congrArg (· + 1) listed.count
    have lookup (ref : Nat) : (mid.add dir file).file ref =
        ((spfileIncref mid dir).file ref).or (if file.ref = ref then some file else none) := by
      rw [Files.file, Files.add, List.find?_append, List.find?_singleton]
      simp [Files.file]
    have new_ref : file.ref = world.tree.next := number.trans flags.count
    refine exclusive.opened member closed held ?_ (by rw [made.count, count]; exact Nat.le_succ _) ?_ ?_
    · intro other inside
      have among : other.ref ∈ (mid.add dir file).files.map Spfile.ref := made.refs ▸ List.mem_map_of_mem inside
      rw [Files.add, List.map_append, listed.refs, List.mem_append] at among
      rw [made.count, count]
      rcases among with older | new
      · obtain ⟨old, before, same⟩ := List.mem_map.mp older
        exact same ▸ Nat.lt_succ_of_lt (exclusive.fresh old before)
      · rw [List.map_singleton, List.mem_singleton] at new
        rw [new, new_ref]
        exact Nat.lt_succ_self _
    · rw [made.count, count, at_file, number, flags.count]
      exact Nat.lt_succ_self _
    · intro ref new there alive
      obtain ⟨old, before, older⟩ := made.live ref new there alive
      have same := made.excl ref
      rw [there, before] at same
      rw [Option.some.inj same]
      rw [lookup] at before
      cases left : (spfileIncref mid dir).file ref with
      | some first =>
          rw [left, Option.some_or] at before
          obtain rfl := Option.some.inj before
          have below : ref < world.tree.next := by
            obtain ⟨inside, numbered⟩ := find?_key left
            have bound := exclusive.fresh_flags listed first inside
            rw [listed.count] at bound
            exact numbered ▸ bound
          have owns : opened.owns ref = 0 := by
            rw [Spfilefid.owns, if_neg]
            rintro ⟨here, -⟩
            omega
          rw [owns]
          exact exclusive.flags_same listed left older
      | none =>
          rw [left, Option.none_or] at before
          split at before
          · rename_i here
            obtain rfl := Option.some.inj before
            rw [exclusive.unowned (Nat.le_of_eq (new_ref.symm.trans here)), excl, Spfilefid.owns, at_file, omode]
            simp [here]
          · cases before

omit [DecidableEq User] in
theorem destroy_exclusive (exclusive : world.Exclusive) (member : f ∈ world.fids)
    (allowed : ∀ file, f.aux.owns f.aux.file = 1 → world.tree.file f.aux.file = some file → file.live → file.refcount = 1) :
    World.Exclusive {
      tree := spfileFiddestroy ops world.tree (some f.aux)
      fids := world.fids.eraseP (·.fid == f.fid) } := by
  have flags := spfileFiddestroy_flags ops world.tree (some f.aux)
  refine ⟨(List.eraseP_sublist.map _).nodup exclusive.numbers, exclusive.fresh_flags flags, ?_, ?_, ?_⟩
  · intro g inside opened
    rw [flags.count]
    exact exclusive.used g (List.mem_of_mem_eraseP inside) opened
  · intro g inside
    exact exclusive.shut g (List.mem_of_mem_eraseP inside)
  · intro ref file found live
    have gone : World.owners { tree := spfileFiddestroy ops world.tree (some f.aux), fids := world.fids.eraseP (·.fid == f.fid) } ref +
        f.aux.owns ref = world.owners ref := weight_eraseP exclusive.numbers member
    rw [← exclusive.flags_same flags found live, ← gone]
    by_cases owns : f.aux.owns ref = 0
    · rw [owns, Nat.add_zero]
    · -- the file of a fid that has it open with Oexcl goes with the fid
      have here : f.aux.file = ref := by
        rw [Spfilefid.owns] at owns
        split at owns
        · rename_i both
          exact both.1
        · exact (owns rfl).elim
      subst here
      have one : f.aux.owns f.aux.file = 1 := by
        rw [Spfilefid.owns] at owns ⊢
        split at owns
        · rename_i both
          rw [if_pos both]
        · exact (owns rfl).elim
      exact (spfileFiddestroy_last ops (fun file => allowed file one) file found live).elim

theorem next_exclusive (exclusive : world.Exclusive) {event : FileEvent User} (allowed : world.ExclAllowed ops event) :
    (world.next ops event).Exclusive := by
  cases event with
  | attach fid user =>
      rw [World.next]
      split
      · exact exclusive
      · rename_i fresh
        refine exclusive.joined (by simpa using fresh) ?_ ?_
        · rw [spfileAttach]
          split
          · exact faulted_flags
          · split
            · exact spfileIncref_flags _ _
            · exact .refl _
        · intro aux held
          rw [spfileAttach] at held
          split at held
          · cases held
          · split at held
            · obtain rfl := Option.some.inj held
              rfl
            · cases held
  | clone fid newfid =>
      rw [World.next]
      cases found : world.find fid with
      | none => exact exclusive
      | some f =>
          dsimp only
          split
          · exact exclusive
          · rename_i fresh
            obtain ⟨shut, unused⟩ := not_or.mp fresh
            have closed := exclusive.shut f (World.find_mem found).1 (by simpa using shut)
            rw [spfileClone]
            refine exclusive.joined (by simpa using unused) ?_ ?_
            · rcases withFile_cases world.tree (some f.aux) _ with failed | ⟨aux, file, held, there, live, same⟩
              · rw [failed]
                exact faulted_flags
              · rw [same]
                exact spfileIncref_flags _ _
            · intro aux made
              rcases withFile_cases world.tree (some f.aux) _ with failed | ⟨old, file, held, there, live, same⟩
              · rw [failed] at made
                obtain rfl := Option.some.inj made
                exact closed
              · rw [same] at made
                obtain rfl := Option.some.inj made
                rfl
  | walk fid name =>
      rw [World.next]
      cases found : world.find fid with
      | none => exact exclusive
      | some f =>
          obtain ⟨member, rfl⟩ := World.find_mem found
          dsimp only
          split
          · exact exclusive
          · rename_i shut
            have closed := exclusive.shut f member (by simpa using shut)
            exact exclusive.after member (spfileWalk_mode f.user name closed) fun _ => closed
  | openfid fid mode =>
      rw [World.next]
      cases found : world.find fid with
      | none => exact exclusive
      | some f =>
          obtain ⟨member, rfl⟩ := World.find_mem found
          dsimp only
          split
          · exact exclusive
          · rename_i shut
            exact open_exclusive exclusive member (by simpa using shut)
  | create fid name perm mode =>
      rw [World.next]
      cases found : world.find fid with
      | none => exact exclusive
      | some f =>
          obtain ⟨member, rfl⟩ := World.find_mem found
          dsimp only
          split
          · exact exclusive
          · rename_i shut
            exact create_exclusive exclusive member (by simpa using shut)
  | read fid offset count =>
      rw [World.next]
      cases found : world.find fid with
      | none => exact exclusive
      | some f =>
          obtain ⟨member, rfl⟩ := World.find_mem found
          dsimp only
          split
          · exact exclusive
          · rename_i opened
            exact exclusive.after member (spfileRead_mode f.fid offset count) fun shut => (opened shut).elim
  | remove fid =>
      rw [World.next]
      cases found : world.find fid with
      | none => exact exclusive
      | some f =>
          obtain ⟨member, rfl⟩ := World.find_mem found
          exact exclusive.after member (spfileRemove_mode f.user) (exclusive.shut f member)
  | destroy fid =>
      rw [World.next]
      cases found : world.find fid with
      | none => exact exclusive
      | some f =>
          obtain ⟨member, rfl⟩ := World.find_mem found
          exact destroy_exclusive exclusive member fun file => allowed f file found

theorem next_safe (exclusive : world.Exclusive) {event : FileEvent User} (allowed : world.ExclAllowed ops event) :
    ExclSafe ops world event (world.next ops event) := by
  refine ⟨(next_exclusive exclusive allowed).flags, ?_, ?_⟩
  · rintro fid mode f rfl asks ⟨g, found, shut, answered, -⟩ same
    obtain rfl := Option.some.inj (found.symm.trans same)
    rcases @spfileOpen_cases _ _ _ _ ops world.tree g.aux g.user mode with ⟨-, refused⟩ | ⟨file, there, live, -, free, -⟩
    · exact (answered refused).elim
    · have down : ¬ file.excl := fun up => free ⟨asks, up⟩
      rw [exclusive.flags _ file there live, if_neg down]
  · rintro fid mode rfl asks fails ref
    rw [World.next]
    cases found : world.find fid with
    | none => rfl
    | some f =>
        dsimp only
        split
        · rfl
        · rename_i shut
          have shut : f.omode = none := by simpa using shut
          rcases @spfileOpen_cases _ _ _ _ ops world.tree f.aux f.user mode with ⟨keeps, -⟩ |
            ⟨file, there, live, permitted, free, -, -, completed⟩
          · exact keeps.flags.excl ref
          · have down : file.excl = false := by simpa [asks] using free
            have opens := completed (allowed f file found shut there live asks permitted down)
            exact (fails ⟨f, found, shut, opens⟩).elim

/-- From a tree in which no file is open, as long as no open with Oexcl fails after its checks and no fid that
has a file open with Oexcl goes before the file does, the flags are those of the fids at every step. -/
theorem excl_safe (ops : Fileops State User Group) {tree : Files State User Group}
    (unopened : ∀ file ∈ tree.files, file.ref < tree.next ∧ file.excl = false) {events : List (FileEvent User)}
    (guarded : Guarded (World.step ops) (World.ExclAllowed ops) { tree } events) :
    EveryStep (World.step ops) (ExclSafe ops) { tree } events := by
  have start : World.Exclusive { tree : World State User Group } := by
    refine ⟨List.nodup_nil, fun file member => (unopened file member).1, ?_, ?_, ?_⟩
    · intro f member
      cases member
    · intro f member
      cases member
    · intro ref file found live
      rw [(unopened file (find?_key found).1).2]
      rfl
  have stepped {world next : World State User Group} {event : FileEvent User}
      (step : World.step ops world event = some next) : next = world.next ops event := by
    rw [World.step] at step
    split at step
    · cases step
    · exact (Option.some.inj step).symm
  refine everyStep_of_invariant (World.step ops) ?_ ?_ start guarded
  · intro world event next exclusive allowed step
    exact stepped step ▸ next_exclusive exclusive allowed
  · intro world event next exclusive allowed step
    exact stepped step ▸ next_safe exclusive allowed

/-- A plain file that does not let itself be opened. -/
def refusing : Fileops Unit Unit Unit :=
  { listing with openfid := fun _ => some fun state _ => ⟨state, none, true⟩ }

def plainRoot : Files Unit Unit Unit where
  files := [{ ref := 0, name := [47], parent := some 0, mode := 0x1FF, uid := none, gid := none, refcount := 1 }]
  root := 0
  next := 1
  state := ()

def openTwice : List (FileEvent Unit) := [.attach 1 (some ()), .attach 2 (some ()), .openfid 1 Oexcl, .openfid 2 Oexcl]

theorem excl_safe_twice : EveryStep (World.step listing) (ExclSafe listing) { tree := nested } openTwice := by
  refine excl_safe listing (by decide) (guarded_cons _ rfl trivial (guarded_cons _ rfl trivial
    (guarded_cons _ rfl ?_ (guarded_cons _ rfl ?_ trivial))))
  · rintro f file ⟨⟩ - ⟨⟩ - - - -
    exact .inl rfl
  · rintro f file ⟨⟩ - ⟨⟩ - - - down
    cases down

/-- The flag outlives the fid that was opened with Oexcl, and an open that fails leaves it up. -/
theorem flag_stays_up :
    ¬ EveryStep (World.step listing) (ExclSafe listing) { tree := nested }
      [.attach 1 (some ()), .openfid 1 Oexcl, .destroy 1] ∧
    ¬ EveryStep (World.step refusing) (ExclSafe refusing) { tree := plainRoot }
      [.attach 1 (some ()), .openfid 1 Oexcl] := by
  constructor
  · intro every
    have safe := (((every _ rfl).2 _ rfl).2 _ rfl).1
    exact absurd (safe.flags 0 _ rfl rfl) (by decide)
  · intro every
    have safe := ((every _ rfl).2 _ rfl).1
    have same := safe.failed 1 Oexcl rfl (by decide) (by rintro ⟨f, ⟨⟩, -, answered, -⟩; exact answered rfl) 0
    revert same
    decide

end Steps

end Xcpu.Libspfs.File
