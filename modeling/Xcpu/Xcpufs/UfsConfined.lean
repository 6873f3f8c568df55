import Xcpu.Xcpufs.Ufs

/-!
The files of a session's process stay below its directory as long as no name that the file system
accepts has a part that is empty, `.` or `..`, and no fid of the directory itself is renamed.
-/

namespace Xcpu.Xcpufs.Ufs

open Xcpu.Libspfs Xcpu.Numerals Xcpu.Paths Xcpu.Transition

variable {Disk User File Value : Type}

/-- The fid stands for the directory of its session or for something below it. -/
def Confined : Aux File → Prop
  | .file _ => True
  | .fs f => Below f.xs.dirpath.path f.path ∧ 0 ∉ f.path

/-- What was created or renamed is below the directory of the session that did it. -/
def MadeInside (world : World Disk) : Prop := ∀ made ∈ world.made, Below made.1 made.2

section Fits

variable (files : Spsrv Disk User File) (fsSession : File → Option (Xsession File)) (os : Os Disk)

/-- A step of a walk: `..`, or proper parts, or else nothing is there. -/
def WalkFits (disk : Disk) (f : Fsfid File) (wname : List UInt8) : Prop :=
  wname = dotdot ∨ Proper (cstr wname) ∨ ∀ st, os.lstat disk (walkPath f wname) ≠ .ok st

/-- The steps of a walk, as far as it goes. -/
def WalksFit : World Disk → Option (Aux File) → List (List UInt8) → Prop
  | _, _, [] => True
  | world, aux, wname :: wnames =>
      (∀ f, aux = some (.fs f) → WalkFits os world.disk f wname) ∧
      ∀ fid : Spfid User (Aux File), fid.aux = aux → (xwalk files fsSession os world fid wname).value.isSome →
        WalksFit (xwalk files fsSession os world fid wname).tree (xwalk files fsSession os world fid wname).aux wnames

/-- Proper parts, or the file is not made. -/
def CreateFits (disk : Disk) (f : Fsfid File) (name : List UInt8) (perm mode : Nat) (extension : List UInt8) : Prop :=
  os.lstat disk (createPath f name) = .error ENOENT →
    (∃ made, createCall os disk (createPath f name) perm mode extension = .ok made) → Proper (cstr name)

/-- Proper parts, or nothing is renamed. The session's own directory can only be renamed to a name
below itself, which file systems refuse. -/
def WstatFits (disk : Disk) (f : Fsfid File) (stat : Spstat) (pkt : Packet) : Prop :=
  let name := stat.name.bytes pkt
  let set := ufsSetAttributes os disk (fidstat os disk f) stat pkt
  set.2 = none → name ≠ [] → renamePath f name ≠ f.path →
    (∃ renamed, os.rename set.1 f.path (renamePath f name) = .ok renamed) →
    if f.path = f.xs.dirpath.path then ∃ rest, cstr name = f.xs.dirpath.name ++ 47 :: rest ∧ Proper rest
    else Proper (cstr name)

def HandlerFits (conn : Spconn (World Disk) User (Aux File)) (tc : Spfcall) (pkt : Packet)
    (fid : Spfid User (Aux File)) : Nat → Prop
  | 5 =>
      let names := (tc.wnames.take tc.nwname).map (·.bytes pkt)
      if tc.fid = tc.newfid then WalksFit files fsSession os conn.tree fid.aux names
      else ∀ newfid, WalksFit files fsSession os (xclone files os conn.tree fid newfid).tree
        (xclone files os conn.tree fid newfid).aux names
  | 7 => ∀ f, fid.aux = some (.fs f) →
      CreateFits os conn.tree.disk f (tc.name.bytes pkt) tc.perm tc.mode (tc.extension.bytes pkt)
  | 13 => ∀ f, fid.aux = some (.fs f) → WstatFits os conn.tree.disk f tc.stat pkt
  | _ => True

/-- The names of a Twalk, Tcreate or Twstat fit. -/
def Fits (conn : Spconn (World Disk) User (Aux File)) : Event Disk → Prop
  | .conn (.message tc pkt) => ∀ fid, spFidFind conn tc.fid = some fid →
      HandlerFits files fsSession os conn tc pkt fid ((tc.type.number - 100) / 2)
  | _ => True

end Fits

theorem cstr_plain (text : List UInt8) : 0 ∉ cstr text := by
  intro member
  have := List.mem_takeWhile_imp member
  simp at this

theorem cstr_join {path : Path} {name : List UInt8} (plain : 0 ∉ path) :
    cstr (path ++ 47 :: name) = path ++ 47 :: cstr name := by
  have all : ∀ c ∈ path, (decide (c ≠ 0)) = true := by
    intro c member
    have other : c ≠ 0 := fun same => plain (same ▸ member)
    simpa using other
  rw [cstr, List.takeWhile_append_of_pos all, List.takeWhile_cons_of_pos (by decide), cstr]

theorem joined_plain {path : Path} {name : List UInt8} (plain : 0 ∉ path) : 0 ∉ path ++ 47 :: cstr name := by
  rw [List.mem_append, List.mem_cons]
  rintro (before | slash | after)
  · exact plain before
  · exact absurd slash (by decide)
  · exact cstr_plain name after

theorem Dirpath.name_plain (dir : Dirpath) : 47 ∉ dir.name ∧ 0 ∉ dir.name := by
  have := dir.unique_name
  have := dir.unique_string
  simp_all [Dirpath.name]

theorem Dirpath.path_plain (dir : Dirpath) : 0 ∉ dir.path := by
  rw [Dirpath.path, List.mem_append, List.mem_cons]
  rintro (before | slash | after)
  · exact dir.tmppath_string before
  · exact absurd slash (by decide)
  · exact dir.name_plain.2 after

theorem Dirpath.beforeLast_path (dir : Dirpath) : beforeLast dir.path = some dir.tmppath :=
  beforeLast_append dir.name_plain.1

section Steps

variable {os : Os Disk} {world : World Disk} {disk : Disk} {f g : Fsfid File} {name : List UInt8}

@[simp] theorem fidstat_path : (fidstat os disk f).path = f.path := by
  unfold fidstat
  split <;> rfl

@[simp] theorem fidstat_xs : (fidstat os disk f).xs = f.xs := by
  unfold fidstat
  split <;> rfl

theorem fidstat_confined (os : Os Disk) (disk : Disk) (confined : Confined (.fs f)) :
    Confined (.fs (fidstat os disk f)) := by
  simpa [Confined] using confined

theorem walkPath_confined (confined : Confined (.fs f)) (fits : name = dotdot ∨ Proper (cstr name))
    (inside : ¬ (name = dotdot ∧ f.path = f.xs.dirpath.path)) :
    Below f.xs.dirpath.path (walkPath f name) ∧ 0 ∉ walkPath f name := by
  obtain ⟨below, plain⟩ := confined
  rw [walkPath]
  split
  · rename_i up
    obtain ⟨dir, cut, kept⟩ := below_beforeLast below fun same => inside ⟨up, same⟩
    rw [cut, Option.getD_some]
    obtain ⟨base, whole, -⟩ := beforeLast_some cut
    rw [whole] at plain
    exact ⟨kept, fun member => plain (List.mem_append_left _ member)⟩
  · rename_i down
    rw [cstr_join plain]
    exact ⟨(below_join_iff below).mpr (fits.resolve_left down), joined_plain plain⟩

theorem ufsWalk_confined (confined : Confined (.fs f)) (fits : WalkFits os disk f name)
    (inside : ¬ (name = dotdot ∧ f.path = f.xs.dirpath.path)) : Confined (.fs (ufsWalk os disk f name).1) := by
  have same : walkPath (fidstat os disk f) name = walkPath f name := by simp [walkPath]
  unfold ufsWalk
  dsimp only
  rw [same]
  split
  · exact fidstat_confined os disk confined
  · rename_i st there
    have moved := walkPath_confined confined (by
      rcases fits with up | proper | missing
      · exact .inl up
      · exact .inr proper
      · exact absurd there (missing st)) inside
    simpa [Confined] using moved

theorem making_inside {path : Path} (made : MadeInside world) (below : Below f.xs.dirpath.path path) :
    MadeInside (world.making f path disk) := by
  intro pair member
  rcases List.mem_cons.mp member with rfl | before
  · exact below
  · exact made pair before

theorem ufsCreated_confined {path : Path} {perm : Nat} (made : MadeInside world) (confined : Confined (.fs f))
    (below : Below f.xs.dirpath.path path) (plain : 0 ∉ path) :
    MadeInside (ufsCreated os world f path perm).1 ∧ Confined (.fs (ufsCreated os world f path perm).2.1) := by
  unfold ufsCreated
  split
  · exact ⟨made, confined⟩
  · dsimp only
    split
    · exact ⟨made, confined⟩
    · exact ⟨made, below, plain⟩

theorem ufsCreate_confined {perm mode : Nat} {extension : List UInt8} (made : MadeInside world)
    (confined : Confined (.fs f)) (fits : CreateFits os world.disk f name perm mode extension) :
    MadeInside (ufsCreate os world f name perm mode extension).1 ∧
      Confined (.fs (ufsCreate os world f name perm mode extension).2.1) := by
  have same : createPath (fidstat os world.disk f) name = createPath f name := by simp [createPath]
  have kept := fidstat_confined os world.disk confined
  unfold ufsCreate
  dsimp only
  rw [same]
  split
  · rename_i missing
    split
    · exact ⟨made, kept⟩
    · rename_i disk created
      have proper := fits missing ⟨disk, created⟩
      have joined : createPath f name = f.path ++ 47 :: cstr name := cstr_join confined.2
      have below : Below (fidstat os world.disk f).xs.dirpath.path (createPath f name) := by
        rw [joined, fidstat_xs]
        exact (below_join_iff confined.1).mpr proper
      refine ufsCreated_confined (making_inside made below) kept below ?_
      rw [joined]
      exact joined_plain confined.2
  · exact ⟨made, kept⟩

theorem renamePath_confined (confined : Confined (.fs f))
    (fits : if f.path = f.xs.dirpath.path then ∃ rest, cstr name = f.xs.dirpath.name ++ 47 :: rest ∧ Proper rest
      else Proper (cstr name)) : Confined (.fs { f with path := renamePath f name }) := by
  obtain ⟨below, plain⟩ := confined
  split at fits
  · rename_i itself
    obtain ⟨rest, named, proper⟩ := fits
    have up : beforeLast f.path = some f.xs.dirpath.tmppath := by rw [itself, Dirpath.beforeLast_path]
    have joined : renamePath f name = f.xs.dirpath.tmppath ++ 47 :: cstr name := by
      rw [renamePath, up, Option.getD_some, cstr_join f.xs.dirpath.tmppath_string]
    refine ⟨.inr ⟨rest, ?_, proper⟩, ?_⟩
    · rw [joined, named, Dirpath.path]
      simp
    · rw [joined]
      exact joined_plain f.xs.dirpath.tmppath_string
  · rename_i inside
    obtain ⟨dir, cut, kept⟩ := below_beforeLast below inside
    obtain ⟨base, whole, -⟩ := beforeLast_some cut
    have dirPlain : 0 ∉ dir := by
      rw [whole] at plain
      exact fun member => plain (List.mem_append_left _ member)
    have joined : renamePath f name = dir ++ 47 :: cstr name := by
      rw [renamePath, cut, Option.getD_some, cstr_join dirPlain]
    refine ⟨?_, ?_⟩
    · rw [joined]
      exact (below_join_iff kept).mpr fits
    · rw [joined]
      exact joined_plain dirPlain

theorem ufsRename_confined (os : Os Disk) (world : World Disk) (name : List UInt8) (made : MadeInside world)
    (confined : Confined (.fs f))
    (fits : name ≠ [] → renamePath f name ≠ f.path →
      (∃ renamed, os.rename world.disk f.path (renamePath f name) = .ok renamed) →
      if f.path = f.xs.dirpath.path then ∃ rest, cstr name = f.xs.dirpath.name ++ 47 :: rest ∧ Proper rest
      else Proper (cstr name)) :
    MadeInside (ufsRename os world f name).1 ∧ Confined (.fs (ufsRename os world f name).2.1) := by
  unfold ufsRename
  split
  · rename_i named
    split
    · exact ⟨made, confined⟩
    · rename_i disk renamed
      have moved := renamePath_confined confined (fits named.1 named.2 ⟨disk, renamed⟩)
      exact ⟨making_inside made moved.1, moved⟩
  · exact ⟨made, confined⟩

theorem ufsWstat_confined {stat : Spstat} {pkt : Packet} (made : MadeInside world) (confined : Confined (.fs f))
    (fits : WstatFits os world.disk f stat pkt) :
    MadeInside (ufsWstat os world f stat pkt).1 ∧ Confined (.fs (ufsWstat os world f stat pkt).2.1) := by
  have kept := fidstat_confined os world.disk confined
  have same : ∀ name, renamePath (fidstat os world.disk f) name = renamePath f name := fun name => by
    simp [renamePath]
  rw [WstatFits] at fits
  unfold ufsWstat
  dsimp only at fits ⊢
  generalize ufsSetAttributes os world.disk (fidstat os world.disk f) stat pkt = set at fits ⊢
  obtain ⟨disk, refusal⟩ := set
  cases refusal with
  | some refusal => exact ⟨made, kept⟩
  | none =>
      have renamed := ufsRename_confined os { world with disk } (stat.name.bytes pkt) made kept
        (by simpa [same] using fits rfl)
      dsimp only
      generalize ufsRename os { world with disk } (fidstat os world.disk f) (stat.name.bytes pkt) = result
        at renamed ⊢
      obtain ⟨after, moved, refusal⟩ := result
      cases refusal with
      | some refusal => exact renamed
      | none => exact renamed

end Steps

section Server

variable {files : Spsrv Disk User File} {fsSession : File → Option (Xsession File)} {os : Os Disk}
  {conn next : Spconn (World Disk) User (Aux File)} {world : World Disk}

theorem calling_held (made : MadeInside world) (back : Back Disk File Value) :
    (world.calling back).Held MadeInside Confined := by
  refine ⟨made, fun aux stands => ?_⟩
  obtain ⟨file, -, rfl⟩ := Option.map_eq_some_iff.mp stands
  trivial

theorem choose_held {fid : Spfid User (Aux File)} {spfile : Disk → Spfid User File → Back Disk File Value}
    {ufs : Disk → Path → Disk × Option Value × Bool} (made : MadeInside world)
    (stands : ∀ aux, fid.aux = some aux → Confined aux) :
    (choose world fid spfile ufs).Held MadeInside Confined := by
  unfold choose
  split
  · exact ⟨made, stands⟩
  · exact calling_held made _

theorem xclone_held (newfid : Spfid User (Aux File)) : Keeping MadeInside Confined (xclone files os · · newfid) := by
  intro world fid made stands
  dsimp only [xclone]
  split
  · rename_i f there
    refine ⟨made, fun aux copied => ?_⟩
    obtain rfl := Option.some.inj copied
    exact stands (.fs f) there
  · exact calling_held made _

theorem xwalkEnd_held {back : Back (World Disk) (Aux File) Spqid} (held : back.Held MadeInside Confined) :
    (xwalkEnd fsSession os back).Held MadeInside Confined := by
  unfold xwalkEnd
  split
  · split
    · rename_i file there xs attached
      refine ⟨held.tree, fun aux copied => ?_⟩
      obtain rfl := Option.some.inj copied
      simp only [ufsAttach, Confined, fidstat_path, fidstat_xs]
      exact ⟨.inl rfl, xs.dirpath.path_plain⟩
    · exact held
  · exact held

theorem xwalk_held {fid : Spfid User (Aux File)} {wname : List UInt8} (made : MadeInside world)
    (stands : ∀ aux, fid.aux = some aux → Confined aux)
    (fits : ∀ f, fid.aux = some (.fs f) → WalkFits os world.disk f wname) :
    (xwalk files fsSession os world fid wname).Held MadeInside Confined := by
  unfold xwalk
  split
  · rename_i f there
    split
    · exact xwalkEnd_held (calling_held made _)
    · rename_i inside
      have moved := ufsWalk_confined (stands (.fs f) there) (fits f there) inside
      split
      · rename_i g refusal walked
        rw [walked] at moved
        refine ⟨made, fun aux copied => ?_⟩
        obtain rfl := Option.some.inj copied
        exact moved
      · rename_i g qid walked
        rw [walked] at moved
        refine ⟨made, fun aux copied => ?_⟩
        obtain rfl := Option.some.inj copied
        exact moved
  · exact xwalkEnd_held (calling_held made _)

theorem xsrv_keeps : (xsrv files fsSession os).Keeps MadeInside Confined where
  startauth _ _ _ made _ := calling_held made _
  checkauth _ _ _ _ made := made
  authread _ _ _ made stands := by
    dsimp only [xsrv]
    exact choose_held made stands
  authwrite _ _ _ _ made stands := by
    dsimp only [xsrv]
    exact choose_held made stands
  authclunk _ _ made stands := by
    dsimp only [xsrv]
    exact choose_held made stands
  attach _ _ _ _ _ made _ := calling_held made _
  flush _ _ made := made
  clone newfid := xclone_held newfid
  «open» _ _ _ made stands := by
    dsimp only [xsrv]
    exact choose_held made stands
  read _ _ _ _ made stands := by
    dsimp only [xsrv]
    exact choose_held made stands
  write _ _ _ _ _ made stands := by
    dsimp only [xsrv]
    exact choose_held made stands
  clunk _ _ made stands := by
    dsimp only [xsrv]
    exact choose_held made stands
  remove _ _ made stands := by
    dsimp only [xsrv]
    exact choose_held made stands
  stat _ _ made stands := by
    dsimp only [xsrv]
    exact choose_held made stands
  fiddestroy _ _ made := made

theorem walksFit_allowed {aux : Option (Aux File)} {wnames : List (List UInt8)} (made : MadeInside world)
    (stands : ∀ a, aux = some a → Confined a) (fit : WalksFit files fsSession os world aux wnames) :
    WalkAllowed (xsrv files fsSession os) MadeInside Confined world aux wnames := by
  induction wnames generalizing world aux with
  | nil => trivial
  | cons wname wnames ih =>
      intro fid same
      subst aux
      have held : (xwalk files fsSession os world fid wname).Held MadeInside Confined :=
        xwalk_held made stands fit.1
      exact ⟨held, fun found => ih held.tree held.aux (fit.2 fid rfl found)⟩

theorem xcreate_held {fid : Spfid User (Aux File)} {tc : Spfcall} {pkt : Packet} (made : MadeInside world)
    (stands : ∀ aux, fid.aux = some aux → Confined aux)
    (fits : ∀ f, fid.aux = some (.fs f) →
      CreateFits os world.disk f (tc.name.bytes pkt) tc.perm tc.mode (tc.extension.bytes pkt)) :
    (xcreate files os world fid tc pkt).Held MadeInside Confined := by
  unfold xcreate
  split
  · rename_i f there
    have created := ufsCreate_confined made (stands (.fs f) there) (fits f there)
    split
    · rename_i after g refusal did
      rw [did] at created
      refine ⟨created.1, fun aux copied => ?_⟩
      obtain rfl := Option.some.inj copied
      exact created.2
    · rename_i after g qid did
      rw [did] at created
      refine ⟨created.1, fun aux copied => ?_⟩
      obtain rfl := Option.some.inj copied
      exact created.2
  · exact calling_held made _

theorem xwstat_held {fid : Spfid User (Aux File)} {stat : Spstat} {pkt : Packet} (made : MadeInside world)
    (stands : ∀ aux, fid.aux = some aux → Confined aux)
    (fits : ∀ f, fid.aux = some (.fs f) → WstatFits os world.disk f stat pkt) :
    (xwstat files os world fid stat pkt).Held MadeInside Confined := by
  unfold xwstat
  split
  · rename_i f there
    have renamed := ufsWstat_confined made (stands (.fs f) there) (fits f there)
    split
    · rename_i after g refusal did
      rw [did] at renamed
      refine ⟨renamed.1, fun aux copied => ?_⟩
      obtain rfl := Option.some.inj copied
      exact renamed.2
    · rename_i after g did
      rw [did] at renamed
      refine ⟨renamed.1, fun aux copied => ?_⟩
      obtain rfl := Option.some.inj copied
      exact renamed.2
  · exact calling_held made _

theorem handlerFits_allowed {tc : Spfcall} {pkt : Packet} {fid : Spfid User (Aux File)} {place : Nat}
    (held : Held MadeInside Confined conn) (stands : ∀ aux, fid.aux = some aux → Confined aux)
    (fits : HandlerFits files fsSession os conn tc pkt fid place) :
    HandlerAllowed (xsrv files fsSession os) MadeInside Confined conn tc pkt fid place := by
  unfold HandlerAllowed
  split
  · simp only [HandlerFits] at fits
    rw [SpWalkAllowed]
    by_cases inPlace : tc.fid = tc.newfid
    · rw [if_pos inPlace] at fits ⊢
      exact walksFit_allowed held.tree stands fits
    · rw [if_neg inPlace] at fits ⊢
      intro newfid
      have cloned : (xclone files os conn.tree fid newfid).Held MadeInside Confined :=
        xclone_held newfid conn.tree fid held.tree stands
      exact walksFit_allowed cloned.tree cloned.aux (fits newfid)
  · exact xcreate_held held.tree stands fits
  · exact xwstat_held held.tree stands fits
  · trivial

/-- The fids of a connection and all that was made. -/
structure Inside (conn : Spconn (World Disk) User (Aux File)) : Prop where
  numbered : Numbered conn
  held : Held MadeInside Confined conn

theorem inside_step {event : Event Disk} (inside : Inside conn) (fits : Fits files fsSession os conn event)
    (stepped : step files fsSession os conn event = some next) : Inside next := by
  cases event with
  | conn event =>
      have numbered : Numbered next := Numbered.closed.step inside.numbered stepped
      refine ⟨numbered, inside.held.step xsrv_keeps inside.numbered ?_ stepped⟩
      cases event with
      | message tc pkt =>
          intro fid found
          exact handlerFits_allowed inside.held (inside.held.fids fid (List.mem_of_find?_eq_some found))
            (fits fid found)
      | answer ref rc => trivial
  | elsewhere disk =>
      obtain rfl := Option.some.inj stepped
      exact ⟨⟨inside.numbered.refs, inside.numbered.numbers, inside.numbered.fresh⟩, inside.held.tree,
        inside.held.fids⟩

end Server

/-- What a client may do in a session's directory stays there. -/
def StaysBelow (conn : Spconn (World Disk) User (Aux File)) : Prop :=
  (∀ fid ∈ conn.fids, ∀ f, fid.aux = some (.fs f) → Below f.xs.dirpath.path f.path) ∧
  ∀ made ∈ conn.tree.made, Below made.1 made.2

/-- As long as the names fit, no fid leaves the directory of its session. -/
theorem sessionFiles_confined (files : Spsrv Disk User File) (fsSession : File → Option (Xsession File))
    (os : Os Disk) (disk : Disk) (events : List (Event Disk)) (final : Spconn (World Disk) User (Aux File))
    (fits : Guarded (step files fsSession os) (Fits files fsSession os)
      (spConnCreate (xsrv files fsSession os) ⟨disk, []⟩) events)
    (ran : run (step files fsSession os) (spConnCreate (xsrv files fsSession os) ⟨disk, []⟩) events = some final) :
    StaysBelow final := by
  have start : Inside (spConnCreate (xsrv files fsSession os) (⟨disk, []⟩ : World Disk)) := by
    refine ⟨⟨List.nodup_nil, List.nodup_nil, ?_⟩, ?_, ?_⟩
    · intro f member
      exact absurd member List.not_mem_nil
    · intro made member
      exact absurd member List.not_mem_nil
    · intro f member
      exact absurd member List.not_mem_nil
  have inside := run_invariant (step files fsSession os)
    (fun _ _ _ held fits stepped => inside_step held fits stepped) start fits ran
  refine ⟨?_, inside.held.tree⟩
  intro fid member f stands
  exact (inside.held.fids fid member (.fs f) stands).1

theorem walksFit_of_proper {files : Spsrv Disk User File} {fsSession : File → Option (Xsession File)} {os : Os Disk}
    {world : World Disk} {aux : Option (Aux File)} {wnames : List (List UInt8)}
    (proper : ∀ wname ∈ wnames, Proper (cstr wname)) : WalksFit files fsSession os world aux wnames := by
  induction wnames generalizing world aux with
  | nil => trivial
  | cons wname wnames ih =>
      refine ⟨fun f _ => .inr (.inl (proper wname List.mem_cons_self)), fun fid _ _ => ih ?_⟩
      intro later member
      exact proper later (List.mem_cons_of_mem _ member)

-- the runs on fixed inputs: a node where every path is a directory and nothing else succeeds

def emptyNode : Os Unit where
  lstat _ _ := .ok ⟨0o040755, 1, 0, 0⟩
  mkdir _ _ _ := .error 1
  opendir _ _ := .error 1
  creat _ _ _ _ := .error 1
  symlink _ _ _ := .error 1
  link _ _ _ := .error 1
  mknod _ _ _ _ := .error 1
  rmdir _ _ := ()
  remove _ _ := ()
  rename _ _ _ := .error 1
  chmod _ _ _ := .error 1
  utime _ _ _ := .error 1
  chown _ _ _ _ := .error 1
  truncate _ _ _ := .error 1
  uname2user _ _ := none
  gname2group _ _ := none
  fidPath _ _ := none
  dotu _ := false
  malloc := ⟨0, 0, 0, 0⟩
  ufsOpen _ _ _ := ((), none, true)
  ufsRead _ _ _ := ((), none, true)
  ufsWrite _ _ _ _ := ((), none, true)
  ufsClunk _ _ := ((), none, true)
  ufsRemove _ _ := ((), none, true)
  ufsStat _ _ := ((), none, true)
  ufsFiddestroy _ _ := ()

/-- The directory `/tmp/xcpu-aBcDeF`. -/
def tmpSession : Xsession Unit where
  sid := 0
  dirpath := ⟨[47, 116, 109, 112], [97, 66, 99, 68, 101, 70], by decide, by decide, by decide⟩
  fsdir := ()

def walkTo (wname : List UInt8) : Event Unit :=
  .conn (.message { type := .twalk, fid := 0, newfid := 0, nwname := 1, wnames := [⟨wname.length, some 0⟩] } wname)

/-- A version, an attach, and the walks `fs` and the name given. -/
def visit (wname : List UInt8) : List (Event Unit) := [.conn version, .conn (attach 0), walkTo [102, 115], walkTo wname]

def node (wname : List UInt8) : Option (Spconn (World Unit) Unit (Aux Unit)) :=
  run (step oneFile (fun _ => some tmpSession) emptyNode)
    (spConnCreate (xsrv oneFile (fun _ => some tmpSession) emptyNode) ⟨(), []⟩) (visit wname)

theorem walkTo_fits {conn : Spconn (World Unit) Unit (Aux Unit)} {wname : List UInt8} (proper : Proper (cstr wname)) :
    Fits oneFile (fun _ => some tmpSession) emptyNode conn (walkTo wname) := by
  intro fid _
  have names : (([⟨wname.length, some 0⟩] : List Spstr).take 1).map (·.bytes wname) = [wname] := by
    simp [Spstr.bytes]
  have walks : WalksFit oneFile (fun _ => some tmpSession) emptyNode conn.tree fid.aux [wname] :=
    walksFit_of_proper (by simpa using proper)
  rw [← names] at walks
  simpa [walkTo, HandlerFits, FcallType.number] using walks

theorem sessionFiles_confined_visit : ∃ final, node [97] = some final ∧ StaysBelow final := by
  refine ⟨_, rfl, sessionFiles_confined oneFile (fun _ => some tmpSession) emptyNode () (visit [97]) _ ?_ rfl⟩
  refine ⟨fun _ _ => trivial, fun _ _ => ⟨fun _ _ => trivial, fun _ _ => ⟨walkTo_fits (by decide), fun _ _ =>
    ⟨walkTo_fits (by decide), fun _ _ => trivial⟩⟩⟩⟩

/-- Twalk takes slashes in a name: `../x` leaves the directory. -/
theorem slashes_escape : ¬ ∀ (files : Spsrv Unit Unit Unit) (fsSession : Unit → Option (Xsession Unit)) (os : Os Unit)
    (disk : Unit) (events : List (Event Unit)) (final : Spconn (World Unit) Unit (Aux Unit)),
    run (step files fsSession os) (spConnCreate (xsrv files fsSession os) ⟨disk, []⟩) events = some final →
      StaysBelow final := by
  intro claim
  obtain ⟨final, ran, fid, member, f, stands, path, session⟩ : ∃ final, node [46, 46, 47, 120] = some final ∧
      ∃ fid ∈ final.fids, ∃ f, fid.aux = some (.fs f) ∧ f.path = tmpSession.dirpath.path ++ 47 :: [46, 46, 47, 120] ∧
        f.xs = tmpSession := ⟨_, rfl, _, List.mem_cons_self, _, rfl, rfl, rfl⟩
  have below := (claim _ _ _ _ _ final ran).1 fid member f stands
  rw [path, session] at below
  exact absurd ((below_join_iff (.inl rfl)).mp below) (by decide)

end Xcpu.Xcpufs.Ufs
