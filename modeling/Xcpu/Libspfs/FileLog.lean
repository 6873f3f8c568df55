import Xcpu.Libspfs.FileRefs

/-!
What the callbacks of a tree log of the operations that they invoke, and what they leave of the
permissions that the user of a fid had when it was opened.
-/

namespace Xcpu.Libspfs.File

section Log

variable {State User Group : Type} (ops : Fileops State User Group) (tree : Files State User Group)

@[simp] theorem set_invoked (ref : Nat) (change : Spfile User Group → Spfile User Group) :
    (tree.set ref change).invoked = tree.invoked := rfl

@[simp] theorem faulted_invoked : tree.faulted.invoked = tree.invoked := rfl

@[simp] theorem called_invoked {Value : Type} (back : Called State Value) :
    (tree.called back).invoked = tree.invoked := rfl

@[simp] theorem spfileIncref_invoked (ref : Nat) : (spfileIncref tree ref).invoked = tree.invoked := by
  rw [spfileIncref]
  split
  · rfl
  · split <;> rfl

@[simp] theorem spfileDecref_invoked (ref : Nat) : (spfileDecref tree ref).invoked = tree.invoked := by
  rw [spfileDecref]
  split
  · rfl
  · split <;> rfl

@[simp] theorem spfileIncref?_invoked (ref : Option Nat) : (spfileIncref? tree ref).invoked = tree.invoked := by
  cases ref with
  | none => rfl
  | some ref => exact spfileIncref_invoked tree ref

@[simp] theorem spfileDecref?_invoked (ref : Option Nat) : (spfileDecref? tree ref).invoked = tree.invoked := by
  cases ref with
  | none => rfl
  | some ref => exact spfileDecref_invoked tree ref

theorem findFrom_invoked (name : List UInt8) (children : List Nat) :
    (findFrom tree name children).2.invoked = tree.invoked := by
  induction children generalizing tree with
  | nil => rfl
  | cons child rest ih =>
      rw [findFrom]
      split
      · exact spfileIncref_invoked tree child
      · rw [ih, spfileDecref_invoked, spfileIncref_invoked]

theorem spfileFind_invoked (dir : Spfile User Group) (name : List UInt8) :
    (spfileFind ops tree dir name).2.1.invoked = tree.invoked := by
  rw [spfileFind]
  split
  · rfl
  · split
    · rfl
    · split
      · exact findFrom_invoked tree name _
      · rfl

theorem spfileFind_state (dir : Spfile User Group) (name : List UInt8) :
    (spfileFind ops tree dir name).2.1.state = tree.state := by
  rw [spfileFind]
  split
  · rfl
  · split
    · rfl
    · split
      · exact findFrom_state tree name _
      · rfl

theorem readEntries_invoked (count n : Nat) (entries : List Nat) :
    (readEntries ops tree count n entries).1.invoked = tree.invoked := by
  induction entries generalizing tree n with
  | nil => rfl
  | cons cf later ih =>
      rw [readEntries]
      split
      · rfl
      · split
        · rw [ih, spfileDecref_invoked, spfileIncref?_invoked]
        · rfl

theorem readStart_invoked (f : Spfilefid) (dir offset : Nat) :
    (readStart tree f dir offset).1.invoked = tree.invoked := by
  rw [readStart]
  split
  · rw [spfileIncref?_invoked, spfileDecref?_invoked]
  · split <;> rfl

theorem truncate_invoked (file : Spfile User Group) : (truncate ops tree file).1.invoked = tree.invoked := by
  rw [truncate]
  split
  · rfl
  · dsimp only
    split <;> rfl

theorem openFile_invoked (file : Spfile User Group) (f : Spfilefid) :
    (openFile ops tree file f).1.invoked = tree.invoked := by
  rw [openFile]
  split <;> rfl

@[simp] theorem add_invoked (dir : Nat) (file : Spfile User Group) :
    (tree.add dir file).invoked = tree.invoked := spfileIncref_invoked tree dir

theorem spfileFiddestroy_invoked (aux : Option Spfilefid) :
    (spfileFiddestroy ops tree aux).invoked = tree.invoked := by
  cases aux with
  | none => rfl
  | some f =>
      rw [spfileFiddestroy]
      split
      · rfl
      · rw [spfileDecref_invoked]
        split
        · rfl
        · rw [spfileDecref?_invoked]
          split <;> rfl

theorem withFile_cases {Value : Type} (aux : Option Spfilefid)
    (body : Spfilefid → Spfile User Group → Back (Files State User Group) Spfilefid Value) :
    withFile tree aux body = refused tree.faulted aux ∨
      ∃ f file, aux = some f ∧ tree.file f.file = some file ∧ file.live ∧
        withFile tree aux body = body f file := by
  cases aux with
  | none => exact .inl rfl
  | some f =>
      rw [withFile]
      cases found : tree.file f.file with
      | none => exact .inl rfl
      | some file =>
          by_cases live : file.live
          · exact .inr ⟨f, file, rfl, found, live, if_pos live⟩
          · exact .inl (if_neg live)

end Log

section Callbacks

variable {State User Group : Type} [DecidableEq User] (ops : Fileops State User Group)
  (tree : Files State User Group) (user : Option User) (aux : Option Spfilefid)

theorem spfileAttach_invoked : (spfileAttach ops tree user).tree.invoked = tree.invoked := by
  rw [spfileAttach]
  split
  · rfl
  · split
    · exact spfileIncref_invoked tree _
    · rfl

omit [DecidableEq User] in
theorem spfileClone_invoked : (spfileClone tree aux).tree.invoked = tree.invoked := by
  cases aux with
  | none => rfl
  | some f =>
      rw [spfileClone, withFile]
      split
      · rfl
      · split
        · exact spfileIncref_invoked tree f.file
        · rfl

/-- What a callback logs, and what it leaves of the fid's permissions. -/
structure Logs (fid : Nat) (write : Option Bool) {Value : Type}
    (back : Back (Files State User Group) Spfilefid Value) : Prop where
  granted : back.aux.map Spfilefid.granted = aux.map Spfilefid.granted
  invoked : back.tree.invoked = tree.invoked ∨ ∃ f file kind, aux = some f ∧ write = some kind ∧
    back.tree.invoked = tree.invoked ++ [⟨fid, file, kind, f.granted⟩]

omit [DecidableEq User] in
theorem Logs.silent {Value : Type} {fid : Nat} {back : Back (Files State User Group) Spfilefid Value}
    (logs : Logs tree aux fid none back) : back.tree.invoked = tree.invoked := by
  obtain same | ⟨f, file, kind, -, none, -⟩ := logs.invoked
  · exact same
  · cases none

omit [DecidableEq User] in
theorem withFile_logs {Value : Type} {fid : Nat} {write : Option Bool}
    (body : Spfilefid → Spfile User Group → Back (Files State User Group) Spfilefid Value)
    (logs : ∀ f file, tree.file f.file = some file → Logs tree (some f) fid write (body f file)) :
    Logs tree aux fid write (withFile tree aux body) := by
  obtain fault | ⟨f, file, rfl, found, -, same⟩ := withFile_cases tree aux body
  · rw [fault]
    exact ⟨rfl, .inl rfl⟩
  · rw [same]
    exact logs f file found

theorem spfileWalk_logs (fid : Nat) (name : List UInt8) :
    Logs tree aux fid none (spfileWalk ops tree user aux name) := by
  apply withFile_logs
  intro f dir found
  have searched := spfileFind_invoked ops tree dir name
  split
  · generalize spfileFind ops tree dir name = search at searched ⊢
    obtain ⟨nfile, next, error⟩ := search
    cases nfile with
    | none => exact ⟨rfl, .inl searched⟩
    | some nfile => exact ⟨rfl, .inl ((spfileDecref_invoked next _).trans searched)⟩
  · exact ⟨rfl, .inl rfl⟩

omit [DecidableEq User] in
theorem spfileRead_logs (fid offset count : Nat) :
    Logs tree aux fid (some false) (spfileRead ops tree fid aux offset count) := by
  apply withFile_logs
  intro f file found
  split
  · split
    · exact ⟨rfl, .inl rfl⟩
    · have started := readStart_invoked tree f file.ref offset
      generalize readStart tree f file.ref offset = start at started ⊢
      obtain ⟨next, entries⟩ := start
      have read := readEntries_invoked ops next count 0 entries
      refine ⟨rfl, .inr ⟨f, file.ref, false, rfl, rfl, ?_⟩⟩
      exact congrArg (· ++ _) (read.trans started)
  · cases ops.read file with
    | none => exact ⟨rfl, .inl rfl⟩
    | some read => exact ⟨rfl, .inr ⟨f, file.ref, false, rfl, rfl, rfl⟩⟩

omit [DecidableEq User] in
theorem spfileWrite_logs (fid offset count : Nat) :
    Logs tree aux fid (some true) (spfileWrite ops tree fid aux offset count) := by
  apply withFile_logs
  intro f file found
  split
  · exact ⟨rfl, .inl rfl⟩
  · cases ops.write file with
    | none => exact ⟨rfl, .inl rfl⟩
    | some write => exact ⟨rfl, .inr ⟨f, file.ref, true, rfl, rfl, rfl⟩⟩

theorem spfileRemove_logs (fid : Nat) : Logs tree aux fid none (spfileRemove ops tree user aux) := by
  apply withFile_logs
  intro f file found
  split
  · exact ⟨rfl, .inl rfl⟩
  · split
    · exact ⟨rfl, .inl rfl⟩
    · split
      · exact ⟨rfl, .inl rfl⟩
      · split
        · exact ⟨rfl, .inl rfl⟩
        · dsimp only
          split
          · exact ⟨rfl, .inl rfl⟩
          · split
            · exact ⟨rfl, .inl rfl⟩
            · exact ⟨rfl, .inl (by simp)⟩

omit [DecidableEq User] in
theorem spfileStat_logs (fid : Nat) : Logs tree aux fid none (spfileStat tree aux) := by
  apply withFile_logs
  intro f file found
  exact ⟨rfl, .inl rfl⟩

theorem spfileWstat_logs (fid : Nat) (stat : Spstat) :
    Logs tree aux fid none (spfileWstat ops tree user aux stat) := by
  apply withFile_logs
  intro f file found
  dsimp only
  split_ifs
  · exact ⟨rfl, .inl rfl⟩
  · exact ⟨rfl, .inl rfl⟩
  · exact ⟨rfl, .inl rfl⟩
  · exact ⟨rfl, .inl rfl⟩
  · exact ⟨rfl, .inl rfl⟩
  · split
    · exact ⟨rfl, .inl rfl⟩
    · split
      · exact ⟨rfl, .inl rfl⟩
      · exact ⟨rfl, .inl rfl⟩

theorem spfileOpen_grants {f : Spfilefid} {file : Spfile User Group} (mode : Nat)
    (found : tree.file f.file = some file) (live : file.live) :
    (spfileOpen ops tree user (some f) mode).tree.invoked = tree.invoked ∧
      ∀ new, (spfileOpen ops tree user (some f) mode).aux = some new → new.granted = granted ops file user := by
  rw [spfileOpen, withFile_some found live]
  dsimp only
  split
  · exact ⟨rfl, by rintro new ⟨⟩; rfl⟩
  · split
    · exact ⟨rfl, by rintro new ⟨⟩; rfl⟩
    · have excl : (if mode &&& Oexcl ≠ 0 then tree.set file.ref fun file => { file with excl := true }
          else tree).invoked = tree.invoked := by
        split <;> rfl
      generalize (if mode &&& Oexcl ≠ 0 then tree.set file.ref fun file => { file with excl := true }
        else tree) = next at excl ⊢
      split
      · exact ⟨excl, by rintro new ⟨⟩; rfl⟩
      · have truncated : (if mode &&& Otrunc ≠ 0 then truncate ops next file
            else (next, true, false)).1.invoked = next.invoked := by
          split
          · exact truncate_invoked ops next file
          · rfl
        generalize (if mode &&& Otrunc ≠ 0 then truncate ops next file else (next, true, false)) = done
          at truncated ⊢
        obtain ⟨last, done, error⟩ := done
        cases done with
        | true => exact ⟨(openFile_invoked ops last file _).trans (truncated.trans excl), by rintro new ⟨⟩; rfl⟩
        | false => exact ⟨truncated.trans excl, by rintro new ⟨⟩; rfl⟩

theorem spfileOpen_invoked (mode : Nat) : (spfileOpen ops tree user aux mode).tree.invoked = tree.invoked := by
  cases aux with
  | none => rfl
  | some f =>
      cases found : tree.file f.file with
      | none =>
          rw [spfileOpen, withFile, found]
          rfl
      | some file =>
          by_cases live : file.live
          · exact (spfileOpen_grants ops tree user mode found live).1
          · rw [spfileOpen, withFile, found]
            dsimp only
            rw [if_neg live]
            rfl

/-- The file that `create` makes in a directory for a user has this mode. -/
def makes (dir : Spfile User Group) (name : List UInt8) (perm fmode : Nat) : Prop :=
  ∃ create, ops.create dir = some create ∧ (create tree.state name (createPerm dir perm)).value = some fmode

theorem spfileCreate_grants (name : List UInt8) (perm mode : Nat) :
    (spfileCreate ops tree user aux name perm mode).tree.invoked = tree.invoked ∧
      ((spfileCreate ops tree user aux name perm mode).value ≠ none → ∃ f dir fmode, aux = some f ∧
        tree.file f.file = some dir ∧ creates ops tree dir user name perm mode ∧
          makes ops tree dir name perm fmode ∧
          ∀ new, (spfileCreate ops tree user aux name perm mode).aux = some new →
            new.granted = granted ops { dir with mode := fmode, uid := user } user) := by
  rw [spfileCreate]
  generalize shape : (fun (f : Spfilefid) (dir : Spfile User Group) => _) = body
  obtain fault | ⟨f, dir, rfl, found, -, same⟩ := withFile_cases tree aux body
  · rw [fault]
    exact ⟨rfl, fun none => (none rfl).elim⟩
  · rw [same]
    subst body
    dsimp only
    have searched := spfileFind_invoked ops tree dir name
    have state := spfileFind_state ops tree dir name
    generalize spfileFind ops tree dir name = search at searched state ⊢
    obtain ⟨nfile, next, error⟩ := search
    dsimp only at searched state
    cases error with
    | true => exact ⟨searched, fun none => (none rfl).elim⟩
    | false =>
        cases nfile with
        | some nfile => exact ⟨searched, fun none => (none rfl).elim⟩
        | none =>
            dsimp only
            split_ifs with plain writes permitted
            · exact ⟨searched, fun none => (none rfl).elim⟩
            · exact ⟨searched, fun none => (none rfl).elim⟩
            · exact ⟨searched, fun none => (none rfl).elim⟩
            · cases operation : ops.create dir with
              | none => exact ⟨searched, fun none => (none rfl).elim⟩
              | some create =>
                  dsimp only
                  cases answer : (create next.state name (createPerm dir perm)).value with
                  | none => exact ⟨searched, fun none => (none rfl).elim⟩
                  | some fmode =>
                      have made : makes ops tree dir name perm fmode := ⟨create, operation, state ▸ answer⟩
                      have goes : creates ops tree dir user name perm mode :=
                        ⟨fun dot => plain (.inl dot), by simpa using writes, by simpa using permitted, create,
                          operation, by rw [← state, answer]; simp⟩
                      dsimp only
                      split
                      · refine ⟨(add_invoked _ _ _).trans searched,
                          fun _ => ⟨f, dir, fmode, rfl, found, goes, made, ?_⟩⟩
                        rintro new ⟨⟩
                        rfl
                      · refine ⟨(openFile_invoked ops _ _ _).trans ((add_invoked _ _ _).trans searched),
                          fun _ => ⟨f, dir, fmode, rfl, found, goes, made, ?_⟩⟩
                        rintro new ⟨⟩
                        rfl

end Callbacks

end Xcpu.Libspfs.File
