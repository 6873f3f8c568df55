import Xcpu.Lib.Transition
import Xcpu.Libspfs.File

/-!
The references of the files of a tree, counted over the walks, opens, creates, reads, removes
and clunks of any fids. A file has one for its place in the tree, one for each fid that is at
it or reads a directory and stands before it, and one for each file that it lists.
-/

namespace Xcpu.Libspfs.File

open Xcpu.Keyed Xcpu.Transition

/-- A fid, with the mode that the handlers keep. -/
structure Fid (User : Type) where
  fid : Nat
  user : Option User
  omode : Option Nat := none
  aux : Spfilefid

structure World (State User Group : Type) where
  tree : Files State User Group
  fids : List (Fid User) := []

/-- The callbacks that the handlers make for the messages of the clients. -/
inductive FileEvent (User : Type) where
  | attach (fid : Nat) (user : Option User)
  | clone (fid newfid : Nat)
  | walk (fid : Nat) (name : List UInt8)
  | openfid (fid mode : Nat)
  | create (fid : Nat) (name : List UInt8) (perm mode : Nat)
  | read (fid offset count : Nat)
  | remove (fid : Nat)
  | destroy (fid : Nat)

section Step

variable {State User Group : Type}

def World.find (world : World State User Group) (fid : Nat) : Option (Fid User) :=
  world.fids.find? (·.fid == fid)

/-- A callback's tree, and the fid as the callback and the handler leave it. -/
def World.after {Value : Type} (world : World State User Group) (fid : Nat) (omode : Option Nat)
    (back : Back (Files State User Group) Spfilefid Value) : World State User Group where
  tree := back.tree
  fids := update Fid.fid world.fids fid fun f => { f with omode, aux := back.aux.getD f.aux }

def World.joined {Value : Type} (world : World State User Group) (fid : Nat) (user : Option User)
    (back : Back (Files State User Group) Spfilefid Value) : World State User Group where
  tree := back.tree
  fids :=
    match back.value, back.aux with
    | some _, some aux => world.fids ++ [{ fid, user, aux }]
    | _, _ => world.fids

variable [DecidableEq User] (ops : Fileops State User Group)

def World.next (world : World State User Group) : FileEvent User → World State User Group
  | .attach fid user =>
      if (world.find fid).isSome then world else world.joined fid user (spfileAttach ops world.tree user)
  | .clone fid newfid =>
      match world.find fid with
      | none => world
      | some f =>
          if f.omode ≠ none ∨ (world.find newfid).isSome then world
          else world.joined newfid f.user (spfileClone world.tree (some f.aux))
  | .walk fid name =>
      match world.find fid with
      | none => world
      | some f =>
          if f.omode ≠ none then world
          else world.after fid none (spfileWalk ops world.tree f.user (some f.aux) name)
  | .openfid fid mode =>
      match world.find fid with
      | none => world
      | some f =>
          if f.omode ≠ none then world
          else world.after fid (some mode) (spfileOpen ops world.tree f.user (some f.aux) mode)
  | .create fid name perm mode =>
      match world.find fid with
      | none => world
      | some f =>
          if f.omode ≠ none then world
          else
            let back := spfileCreate ops world.tree f.user (some f.aux) name perm mode
            world.after fid (if back.value.isSome then some mode else none) back
  | .read fid offset count =>
      match world.find fid with
      | none => world
      | some f =>
          if f.omode = none then world
          else world.after fid f.omode (spfileRead ops world.tree fid (some f.aux) offset count)
  | .remove fid =>
      match world.find fid with
      | none => world
      | some f => world.after fid f.omode (spfileRemove ops world.tree f.user (some f.aux))
  | .destroy fid =>
      match world.find fid with
      | none => world
      | some f => {
          tree := spfileFiddestroy ops world.tree (some f.aux)
          fids := world.fids.eraseP (·.fid == fid) }

/-- A step that used a destroyed file has left the defined behaviour. -/
def World.step (world : World State User Group) (event : FileEvent User) : Option (World State User Group) :=
  if (world.next ops event).tree.fault then none else some (world.next ops event)

end Step

section Counts

variable {State User Group : Type}

/-- The references of a file that its place in the tree and the files it lists are. -/
def Spfile.placed (ref : Nat) (file : Spfile User Group) : Nat :=
  (if file.ref = ref ∧ file.parent ≠ none then 1 else 0) +
    if file.parent = some ref ∧ file.ref ≠ ref then 1 else 0

/-- Those of a fid. -/
def Spfilefid.stands (ref : Nat) (f : Spfilefid) : Nat :=
  (if f.file = ref then 1 else 0) + if f.dirent = some ref then 1 else 0

def World.held (world : World State User Group) (ref : Nat) : Nat :=
  weight (Spfile.placed ref) world.tree.files + weight (fun f => f.aux.stands ref) world.fids

/-- Every file has the references that are held of it, and is there as long as it has one. -/
def World.Counted (world : World State User Group) : Prop :=
  ∀ file ∈ world.tree.files, file.refcount = world.held file.ref ∧ (file.live ↔ 0 < world.held file.ref)

/-- A tree whose files are listed where they say. -/
structure Files.Placed (tree : Files State User Group) : Prop where
  refs : (tree.files.map Spfile.ref).Nodup
  root : ∃ file ∈ tree.files, file.ref = tree.root ∧ file.parent = some tree.root
  parents : ∀ file ∈ tree.files, ∀ parent, file.parent = some parent → ∃ dir ∈ tree.files, dir.ref = parent
  own : ∀ file ∈ tree.files, file.parent = some file.ref → file.ref = tree.root
  sound : tree.fault = false

/-- A tree before there are fids. -/
structure Files.Whole (tree : Files State User Group) : Prop extends tree.Placed where
  counted : World.Counted { tree : World State User Group }

end Counts

section Trees

variable {State User Group : Type} {tree next : Files State User Group} {want : Nat → Int} {ref : Nat}

/-- Each file has the references that are wanted of it. -/
def Tallied (tree : Files State User Group) (want : Nat → Int) : Prop :=
  ∀ file ∈ tree.files, file.refcount = want file.ref ∧ (file.live ↔ 0 < want file.ref)

/-- A file, and the directory that lists it. -/
def Spfile.link (file : Spfile User Group) : Nat × Option Nat := (file.ref, file.parent)

/-- The same tree, but for the counts and the attributes of the files. -/
structure Frame (tree next : Files State User Group) : Prop where
  links : next.files.map Spfile.link = tree.files.map Spfile.link
  root : next.root = tree.root
  fault : next.fault = tree.fault

theorem Frame.refl (tree : Files State User Group) : Frame tree tree := ⟨rfl, rfl, rfl⟩

theorem Frame.trans {third : Files State User Group} (one : Frame tree next) (two : Frame next third) :
    Frame tree third :=
  ⟨two.links.trans one.links, two.root.trans one.root, two.fault.trans one.fault⟩

theorem Frame.refs (frame : Frame tree next) : next.files.map Spfile.ref = tree.files.map Spfile.ref := by
  have links := congrArg (List.map Prod.fst) frame.links
  rw [List.map_map, List.map_map] at links
  exact links

theorem Frame.mem (frame : Frame tree next) {file : Spfile User Group} (member : file ∈ next.files) :
    ∃ old ∈ tree.files, old.ref = file.ref ∧ old.parent = file.parent := by
  have inside := List.mem_map_of_mem (f := Spfile.link) member
  rw [frame.links, List.mem_map] at inside
  obtain ⟨old, before, same⟩ := inside
  simp only [Spfile.link, Prod.mk.injEq] at same
  exact ⟨old, before, same.1, same.2⟩

theorem Frame.symm (frame : Frame tree next) : Frame next tree :=
  ⟨frame.links.symm, frame.root.symm, frame.fault.symm⟩

theorem weight_links {first second : List (Spfile User Group)} (links : second.map Spfile.link = first.map Spfile.link)
    (ref : Nat) : weight (Spfile.placed ref) second = weight (Spfile.placed ref) first := by
  induction second generalizing first with
  | nil =>
      cases first with
      | nil => rfl
      | cons file rest => cases links
  | cons file rest ih =>
      cases first with
      | nil => cases links
      | cons old others =>
          simp only [List.map_cons, List.cons.injEq, Spfile.link, Prod.mk.injEq] at links
          obtain ⟨⟨number, parent⟩, links⟩ := links
          rw [weight, weight, ih links, Spfile.placed, Spfile.placed, number, parent]

theorem Frame.children (frame : Frame tree next) (dir : Nat) : next.children dir = tree.children dir := by
  have links := frame.links
  rw [Files.children, Files.children]
  generalize next.files = second at links ⊢
  generalize tree.files = first at links ⊢
  induction second generalizing first with
  | nil =>
      cases first with
      | nil => rfl
      | cons file rest => cases links
  | cons file rest ih =>
      cases first with
      | nil => cases links
      | cons old others =>
          simp only [List.map_cons, List.cons.injEq, Spfile.link, Prod.mk.injEq] at links
          obtain ⟨⟨number, parent⟩, links⟩ := links
          rw [List.filter_cons, List.filter_cons, number, parent]
          split
          · rw [List.map_cons, List.map_cons, ih others links, number]
          · exact ih others links

/-- What a pointer holds of a file. -/
def points (pointer : Option Nat) (ref : Nat) : Int := if pointer = some ref then 1 else 0

/-- A pointer is to a file that is there. -/
def Points (tree : Files State User Group) (want : Nat → Int) (pointer : Option Nat) : Prop :=
  ∀ ref, pointer = some ref → (∃ file ∈ tree.files, file.ref = ref) ∧ 0 < want ref

theorem Points.frame {pointer : Option Nat} {more : Nat → Int} (there : Points tree want pointer)
    (frame : Frame tree next) (above : ∀ ref, want ref ≤ more ref) : Points next more pointer := by
  intro ref same
  obtain ⟨⟨file, member, number⟩, positive⟩ := there ref same
  obtain ⟨new, inside, kept, -⟩ := frame.symm.mem member
  have more := above ref
  exact ⟨⟨new, inside, kept.trans number⟩, by omega⟩

theorem Tallied.congr (tallied : Tallied tree want) {other : Nat → Int} (same : ∀ ref, want ref = other ref) :
    Tallied tree other := by
  intro file member
  rw [← same]
  exact tallied file member

variable (refs : (tree.files.map Spfile.ref).Nodup) (tallied : Tallied tree want)
include refs tallied

end Trees

section World

variable {State User Group : Type} {world : World State User Group} {want : Nat → Int} {ref : Nat}

/-- What a fid points to is in the tree; it reads a directory only where the handlers took it for open. -/
structure Fid.Standing (tree : Files State User Group) (f : Fid User) : Prop where
  at_file : ∃ file ∈ tree.files, file.ref = f.aux.file
  before : ∀ ref, f.aux.dirent = some ref → ∃ file ∈ tree.files, file.ref = ref
  shut : f.omode = none → f.aux.omode = none ∧ f.aux.dirent = none

structure World.Inv (world : World State User Group) : Prop where
  placed : world.tree.Placed
  numbers : (world.fids.map Fid.fid).Nodup
  standing : ∀ f ∈ world.fids, f.Standing world.tree
  tallied : Tallied world.tree fun ref => world.held ref

theorem Frame.kept {tree next : Files State User Group} (frame : Frame tree next)
    (there : ∃ file ∈ tree.files, file.ref = ref) : ∃ file ∈ next.files, file.ref = ref := by
  obtain ⟨file, inside, number⟩ := there
  obtain ⟨new, after, same, -⟩ := frame.symm.mem inside
  exact ⟨new, after, same.trans number⟩

theorem Frame.placed {tree next : Files State User Group} (frame : Frame tree next) (placed : tree.Placed) :
    next.Placed where
  refs := by
    rw [frame.refs]
    exact placed.refs
  root := by
    obtain ⟨file, inside, number, parent⟩ := placed.root
    obtain ⟨new, after, same, listed⟩ := frame.symm.mem inside
    rw [frame.root]
    exact ⟨new, after, same.trans number, listed.trans parent⟩
  parents := by
    intro new inside parent listed
    obtain ⟨file, older, -, same⟩ := frame.mem inside
    exact frame.kept (placed.parents file older parent (same.trans listed))
  own := by
    intro new inside itself
    obtain ⟨file, older, number, same⟩ := frame.mem inside
    rw [frame.root, ← number]
    exact placed.own file older (same.trans (itself.trans (congrArg some number.symm)))
  sound := frame.fault.trans placed.sound

theorem Frame.standing {tree next : Files State User Group} (frame : Frame tree next) {f : Fid User}
    (standing : f.Standing tree) : f.Standing next :=
  ⟨frame.kept standing.at_file, fun ref same => frame.kept (standing.before ref same), standing.shut⟩

/-- A step on the tree alone and on one fid. -/
structure Moved (world : World State User Group) (f : Fid User) (omode : Option Nat) (aux : Spfilefid)
    (tree : Files State User Group) : Prop where
  frame : Frame world.tree tree
  tallied : Tallied tree fun ref => (world.held ref : Int) - f.aux.stands ref + aux.stands ref
  standing : Fid.Standing world.tree { f with omode, aux }

theorem World.find_mem {fid : Nat} {f : Fid User} (found : world.find fid = some f) :
    f ∈ world.fids ∧ f.fid = fid :=
  find?_key found

theorem Moved.inv {f : Fid User} {aux : Spfilefid} {tree : Files State User Group} {omode : Option Nat}
    (inv : world.Inv) (member : f ∈ world.fids) (moved : Moved world f omode aux tree) :
    World.Inv { tree, fids := update Fid.fid world.fids f.fid fun f => { f with omode, aux } } := by
  have shift (measure : Fid User → Nat) : weight measure (update Fid.fid world.fids f.fid fun f =>
      { f with omode, aux }) + measure f = weight measure world.fids + measure { f with omode, aux } :=
    weight_update inv.numbers member
  refine ⟨moved.frame.placed inv.placed, ?_, ?_, ?_⟩
  · rw [update_map _ (by intro item; rfl)]
    exact inv.numbers
  · intro g inside
    obtain ⟨old, older, rfl⟩ := mem_update.mp inside
    split
    · exact ⟨moved.frame.kept moved.standing.at_file, (moved.frame.standing moved.standing).before,
        moved.standing.shut⟩
    · exact moved.frame.standing (inv.standing old older)
  · apply moved.tallied.congr
    intro ref
    have fids := shift fun f => f.aux.stands ref
    have files := weight_links moved.frame.links ref
    dsimp only at fids
    rw [World.held, World.held]
    dsimp only
    omega

theorem World.after_eq {f : Fid User} {omode : Option Nat} {Value : Type}
    {back : Back (Files State User Group) Spfilefid Value}
    (numbers : (world.fids.map Fid.fid).Nodup) (member : f ∈ world.fids) : world.after f.fid omode back = {
      tree := back.tree
      fids := update Fid.fid world.fids f.fid fun g => { g with omode, aux := back.aux.getD f.aux } } := by
  rw [World.after, update, update, World.mk.injEq]
  refine ⟨rfl, List.map_congr_left fun g inside => ?_⟩
  by_cases number : g.fid = f.fid
  · rw [List.inj_on_of_nodup_map numbers inside member number]
  · rw [if_neg number, if_neg number]

theorem Moved.after {f : Fid User} {omode : Option Nat} {Value : Type}
    {back : Back (Files State User Group) Spfilefid Value}
    (inv : world.Inv) (member : f ∈ world.fids) (moved : Moved world f omode (back.aux.getD f.aux) back.tree) :
    (world.after f.fid omode back).Inv := by
  rw [World.after_eq inv.numbers member]
  exact moved.inv inv member

theorem Moved.stay {f : Fid User} {omode : Option Nat} {aux : Spfilefid} {tree : Files State User Group}
    (inv : world.Inv) (member : f ∈ world.fids) (frame : Frame world.tree tree)
    (tallied : Tallied tree fun ref => world.held ref) (file : aux.file = f.aux.file)
    (dirent : aux.dirent = f.aux.dirent)
    (shut : omode = none → aux.omode = none ∧ aux.dirent = none) :
    Moved world f omode aux tree where
  frame := frame
  tallied := tallied.congr fun ref => by
    rw [Spfilefid.stands, Spfilefid.stands, file, dirent]
    omega
  standing := by
    refine ⟨?_, ?_, shut⟩
    · dsimp only
      rw [file]
      exact (inv.standing f member).at_file
    · dsimp only
      rw [dirent]
      exact (inv.standing f member).before

theorem World.stands_le {f : Fid User} (member : f ∈ world.fids) (ref : Nat) :
    f.aux.stands ref + weight (Spfile.placed ref) world.tree.files ≤ world.held ref := by
  have below : f.aux.stands ref ≤ weight (fun f : Fid User => f.aux.stands ref) world.fids :=
    @le_weight _ world.fids f (fun f => f.aux.stands ref) member
  rw [World.held]
  omega

theorem World.Inv.here (inv : world.Inv) {f : Fid User} (member : f ∈ world.fids) :
    ∃ file ∈ world.tree.files, file.ref = f.aux.file ∧ file.live ∧ world.tree.file f.aux.file = some file := by
  obtain ⟨file, inside, number⟩ := (inv.standing f member).at_file
  have held := World.stands_le member f.aux.file
  rw [Spfilefid.stands, if_pos rfl] at held
  have live := (inv.tallied file inside).2.mpr (by dsimp only; rw [number]; omega)
  exact ⟨file, inside, number, live, find?_of_mem inv.placed.refs inside number⟩

theorem withFile_some {Value : Type} {tree : Files State User Group} {f : Spfilefid} {file : Spfile User Group}
    {body : Spfilefid → Spfile User Group → Back (Files State User Group) Spfilefid Value}
    (found : tree.file f.file = some file) (live : file.live) : withFile tree (some f) body = body f file := by
  rw [withFile, found]
  dsimp only
  rw [if_pos live]

/-- A tree that differs in nothing that is counted. -/
structure Quiet (tree next : Files State User Group) : Prop where
  files : next.files.map (fun file => (file.link, file.refcount, file.live)) =
    tree.files.map fun file => (file.link, file.refcount, file.live)
  root : next.root = tree.root
  fault : next.fault = tree.fault

theorem Quiet.refl (tree : Files State User Group) : Quiet tree tree := ⟨rfl, rfl, rfl⟩

theorem Quiet.trans {tree next third : Files State User Group} (one : Quiet tree next) (two : Quiet next third) :
    Quiet tree third :=
  ⟨two.files.trans one.files, two.root.trans one.root, two.fault.trans one.fault⟩

theorem Quiet.frame {tree next : Files State User Group} (quiet : Quiet tree next) : Frame tree next := by
  have links := congrArg (List.map Prod.fst) quiet.files
  rw [List.map_map, List.map_map] at links
  exact ⟨links, quiet.root, quiet.fault⟩

theorem Quiet.tallied {tree next : Files State User Group} (quiet : Quiet tree next) (tallied : Tallied tree want) :
    Tallied next want := by
  intro file member
  have inside := List.mem_map_of_mem (f := fun file : Spfile User Group => (file.link, file.refcount, file.live)) member
  rw [quiet.files, List.mem_map] at inside
  obtain ⟨old, before, same⟩ := inside
  simp only [Spfile.link, Prod.mk.injEq] at same
  obtain ⟨⟨number, -⟩, refcount, live⟩ := same
  rw [← number, ← refcount, ← live]
  exact tallied old before

theorem spfileIncref_state (tree : Files State User Group) (ref : Nat) :
    (spfileIncref tree ref).state = tree.state := by
  rw [spfileIncref]
  split
  · rfl
  · split <;> rfl

theorem spfileDecref_state (tree : Files State User Group) (ref : Nat) :
    (spfileDecref tree ref).state = tree.state := by
  rw [spfileDecref]
  split
  · rfl
  · split <;> rfl

theorem findFrom_state (tree : Files State User Group) (name : List UInt8) (children : List Nat) :
    (findFrom tree name children).2.state = tree.state := by
  induction children generalizing tree with
  | nil => rfl
  | cons child rest ih =>
      rw [findFrom]
      split
      · exact spfileIncref_state tree child
      · exact (ih _).trans ((spfileDecref_state _ child).trans (spfileIncref_state tree child))

end World

/-- What `create` needs to go on to the directory's own operation, and that one's answer. -/
def creates {State User Group : Type} [DecidableEq User] (ops : Fileops State User Group)
    (tree : Files State User Group) (dir : Spfile User Group) (user : Option User) (name : List UInt8)
    (perm mode : Nat) : Prop :=
  name ≠ [46] ∧ spfileCheckperm ops dir user 2 = true ∧
    checkPerm ops (createPerm dir perm) user dir.gid user (mode2perm mode) = true ∧
    ∃ create, ops.create dir = some create ∧ (create tree.state name (createPerm dir perm)).value ≠ none

/-- Steps that keep the references counted: no walk to a parent, walks and creates in directories
alone, no create of a name that is there or that succeeds, no remove of a file that was removed,
and no clunk amid a directory whose open was refused. -/
def World.Allowed {State User Group : Type} [DecidableEq User] (ops : Fileops State User Group)
    (world : World State User Group) : FileEvent User → Prop
  | .walk fid name => ∀ f dir, world.find fid = some f → world.tree.file f.aux.file = some dir →
      spfileCheckperm ops dir f.user 1 = true → if name = dotdot then dir.parent = none else dir.isDir = true
  | .create fid name perm mode => ∀ f dir, world.find fid = some f → world.tree.file f.aux.file = some dir →
      name ≠ dotdot → dir.isDir = true ∧ (ops.lists dir = true →
        (findFrom world.tree name (world.tree.children dir.ref)).1 = none ∧
          ¬ creates ops world.tree dir f.user name perm mode)
  | .remove fid => ∀ f file, world.find fid = some f → world.tree.file f.aux.file = some file →
      (file.isDir = true → ops.lists file = true ∧ world.tree.children file.ref = []) → file.parent ≠ none
  | .destroy fid => ∀ f, world.find fid = some f → f.aux.omode = none → f.aux.dirent = none
  | _ => True

section Callbacks

variable {State User Group : Type} [DecidableEq User] {ops : Fileops State User Group}
  {world : World State User Group} {f : Fid User} {file : Spfile User Group}
  (inv : world.Inv) (member : f ∈ world.fids) (found : world.tree.file f.aux.file = some file) (live : file.live)
include inv member

include found live

end Callbacks

section Runs

variable {State User Group : Type} [DecidableEq User] {ops : Fileops State User Group} {world : World State User Group}

omit [DecidableEq User] in
theorem inv_start {tree : Files State User Group} (whole : tree.Whole) :
    World.Inv { tree : World State User Group } where
  placed := whole.toPlaced
  numbers := List.nodup_nil
  standing := by
    intro f member
    cases member
  tallied := by
    intro file member
    obtain ⟨counts, live⟩ := whole.counted file member
    exact ⟨counts, live.trans Int.natCast_pos.symm⟩

/-- A server that only lists. -/
def listing : Fileops Unit Unit Unit where
  ismember _ _ := false
  lists _ := true
  statsize _ := 61
  create _ := none
  remove _ := none
  wstat _ := none
  read _ := none
  write _ := none
  openfid _ := none
  closefid _ := none

/-- A root with one directory. -/
def nested : Files Unit Unit Unit where
  files := [
    { ref := 0, name := [47], parent := some 0, mode := 0x800001FF, uid := none, gid := none, refcount := 2 },
    { ref := 1, name := [97], parent := some 0, mode := 0x800001FF, uid := none, gid := none, refcount := 1 }]
  root := 0
  next := 2
  state := ()

end Runs

end Xcpu.Libspfs.File
