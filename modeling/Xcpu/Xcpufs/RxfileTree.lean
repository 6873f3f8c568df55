import Xcpu.Lib.Paths
import Xcpu.Libspfs.Fcall

/-!
The list of files that `rxfile_create_from_file` (`file.c` of xcpufs) makes of a directory tree, against the
files and directories that the tree has.
-/

namespace Xcpu.Xcpufs.RxfileTree

open Xcpu.Libspfs Xcpu.Paths

mutual

/-- What is found at a path. -/
inductive Tree where
  /-- `stat`, `opendir` or an allocation fails with this. -/
  | lost (ecode : Nat)
  | file (mode : Nat)
  | dir (mode : Nat) (stream : Stream)
  deriving DecidableEq

/-- What `readdir` finds in a directory. -/
inductive Stream where
  | done
  | entry (dname : Path) (tree : Tree) (rest : Stream)
  deriving DecidableEq

end

/-- A file of the list; its `next` is the one after it. -/
structure Rxfile where
  fs : Nat
  name : Path
  perm : Nat
  create : Bool
  path : Path
  buf : Option Path
  buflen : Nat
  fd : Int
  fid : Option Nat
  spcfd : Option Nat
  pos : Nat
  deriving DecidableEq

/-- `st.st_mode & 0777`, with `Dmdir` for a directory -/
def Tree.perm : Tree → Nat
  | .lost _ => 0
  | .file mode => mode &&& 0o777
  | .dir mode _ => mode &&& 0o777 ||| Dmdir

/-- The part after the last slash, or the whole path. -/
def lastName (path : Path) : Path := (path.reverse.takeWhile (· ≠ 47)).reverse

def rxfile (fs : Nat) (name path : Path) (perm : Nat) : Rxfile :=
  { fs, name, perm, create := true, path, buf := none, buflen := 0, fd := -1, fid := none, spcfd := none, pos := 0 }

/-- The names that are passed over: `.` and all that begin with two dots. -/
def passed : Path → Bool
  | [46] => true
  | 46 :: 46 :: _ => true
  | _ => false

/-- `for(cf = ff; cf->next != NULL; cf = f->next)` in a list of this length, in which `f` is the first. -/
def advance : Nat → Nat → Nat → Option Nat
  | 0, _, _ => none
  | fuel + 1, length, cf => if cf + 1 < length then advance fuel length 1 else some cf

mutual

def rxfileCreateFromFile (fuel fs : Nat) (name : Option Path) (path : Path) :
    Tree → Option (Except Nat (List Rxfile))
  | .lost ecode => some (.error ecode)
  | .file mode => some (.ok [rxfile fs (name.getD (lastName path)) path (Tree.file mode).perm])
  | .dir mode stream =>
      let f := rxfile fs (name.getD (lastName path)) path (Tree.dir mode stream).perm
      readdirLoop fuel f stream [f] 0

/-- `files` is the list from `f` on, and `cf` a place in it. -/
def readdirLoop (fuel : Nat) (f : Rxfile) : Stream → List Rxfile → Nat → Option (Except Nat (List Rxfile))
  | .done, files, _ => some (.ok files)
  | .entry dname tree rest, files, cf =>
      if passed dname then readdirLoop fuel f rest files cf
      else
        match rxfileCreateFromFile fuel f.fs (some (f.name ++ 47 :: dname)) (f.path ++ 47 :: dname) tree with
        | none => none
        | some (.error ecode) => some (.error ecode)
        | some (.ok ff) =>
            let files := files.take (cf + 1) ++ ff
            match advance fuel files.length (cf + 1) with
            | none => none
            | some cf => readdirLoop fuel f rest files cf

end

mutual

/-- The files and directories of a tree with their names from its root. -/
def Tree.nodes : Tree → List (List Path × Nat)
  | .lost ecode => [([], (Tree.lost ecode).perm)]
  | .file mode => [([], (Tree.file mode).perm)]
  | .dir mode stream => ([], (Tree.dir mode stream).perm) :: stream.nodes

def Stream.nodes : Stream → List (List Path × Nat)
  | .done => []
  | .entry dname tree rest =>
      if dname = [46] ∨ dname = [46, 46] then rest.nodes
      else tree.nodes.map (fun node => (dname :: node.1, node.2)) ++ rest.nodes

end

/-- `path/a/b` for the names `a` and `b`. -/
def join (path : Path) (names : List Path) : Path := names.foldl (fun path name => path ++ 47 :: name) path

/-- The list has every file and directory of the tree once, and a directory before what is below it. -/
def Lists (fs : Nat) (name path : Path) (tree : Tree) (files : List Rxfile) : Prop :=
  ∃ order : List (List Path × Nat), order.Perm tree.nodes ∧
    order.Pairwise (fun earlier later => ¬(later.1 <+: earlier.1 ∧ later.1 ≠ earlier.1)) ∧
    files = order.map fun node => rxfile fs (join name node.1) (join path node.1) node.2

/-- The entries without `.` and `..`. -/
def Stream.entries : Stream → List (Path × Tree)
  | .done => []
  | .entry dname tree rest =>
      if dname = [46] ∨ dname = [46, 46] then rest.entries else (dname, tree) :: rest.entries

/-- The entries that the loop does not pass over. -/
def Stream.listed : Stream → List (Path × Tree)
  | .done => []
  | .entry dname tree rest => if passed dname then rest.listed else (dname, tree) :: rest.listed

/-- A file, or a directory with nothing in it. -/
def Tree.Leaf : Tree → Prop
  | .lost _ => False
  | .file _ => True
  | .dir _ stream => stream.entries = []

/-- No directory below the root has anything in it, everything can be read, and no name begins with two dots. -/
def Tree.Flat : Tree → Prop
  | .lost _ => False
  | .file _ => True
  | .dir _ stream => ∀ entry ∈ stream.entries, passed entry.1 = false ∧ entry.2.Leaf

/-- A list of one file is made of the tree. -/
def Tree.Single : Tree → Prop
  | .lost _ => False
  | .file _ => True
  | .dir _ stream => stream.listed = []

/-- The tree can be read, and all lists below its root are of one file. -/
def Tree.Ends : Tree → Prop
  | .lost _ => False
  | .file _ => True
  | .dir _ stream => ∀ entry ∈ stream.listed, entry.2.Single

/-- The files of the entries that are listed, in order. -/
def Stream.files (f : Rxfile) (stream : Stream) : List Rxfile :=
  stream.listed.map fun entry => rxfile f.fs (f.name ++ 47 :: entry.1) (f.path ++ 47 :: entry.1) entry.2.perm

/-- The list that is made of a tree if its lists end. -/
def Tree.files (fs : Nat) (name path : Path) (tree : Tree) : List Rxfile :=
  let f := rxfile fs name path tree.perm
  match tree with
  | .dir _ stream => f :: stream.files f
  | _ => [f]

section Advance

variable {fuel length cf next : Nat}

theorem advance_some (behind : 1 ≤ cf) (ended : advance fuel length cf = some next) : next = cf ∧ length ≤ cf + 1 := by
  induction fuel generalizing cf with
  | zero => cases ended
  | succ fuel ih =>
      rw [advance] at ended
      split at ended
      · obtain ⟨-, short⟩ := ih (le_refl 1) ended
        omega
      · exact ⟨(Option.some.inj ended).symm, by omega⟩

theorem advance_none (behind : 1 ≤ cf) (more : cf + 1 < length) : advance fuel length cf = none := by
  rw [Option.eq_none_iff_forall_ne_some]
  intro next ended
  obtain ⟨-, short⟩ := advance_some behind ended
  omega

theorem advance_last : advance (fuel + 1) (cf + 1) cf = some cf := if_neg (Nat.lt_irrefl _)

end Advance

theorem Tree.files_single {tree : Tree} (single : tree.Single) (fs : Nat) (name path : Path) :
    tree.files fs name path = [rxfile fs name path tree.perm] := by
  cases tree with
  | lost ecode => exact single.elim
  | file mode => rfl
  | dir mode stream => rw [Tree.files, Stream.files, single, List.map_nil]

theorem Tree.single_of_files {tree : Tree} {fs : Nat} {name path : Path} (ends : tree.Ends)
    (short : (tree.files fs name path).length ≤ 1) : tree.Single := by
  cases tree with
  | lost ecode => exact ends
  | file mode => trivial
  | dir mode stream =>
      rw [Tree.files, List.length_cons, Stream.files, List.length_map] at short
      exact List.length_eq_zero_iff.mp (by omega)

theorem Tree.Single.ends {tree : Tree} (single : tree.Single) : tree.Ends := by
  cases tree with
  | lost ecode => exact single
  | file mode => exact single
  | dir mode stream =>
      intro entry member
      rw [show stream.listed = [] from single] at member
      cases member

theorem Tree.files_ne_nil {tree : Tree} {fs : Nat} {name path : Path} : 1 ≤ (tree.files fs name path).length := by
  cases tree <;> exact Nat.succ_le_succ (Nat.zero_le _)

mutual

theorem rxfileCreateFromFile_ok (fuel fs : Nat) (name : Option Path) (path : Path) (files : List Rxfile) :
    (tree : Tree) → rxfileCreateFromFile fuel fs name path tree = some (.ok files) →
      tree.Ends ∧ files = tree.files fs (name.getD (lastName path)) path
  | .lost ecode, made => by simp [rxfileCreateFromFile] at made
  | .file mode, made => by
      rw [rxfileCreateFromFile, Option.some.injEq, Except.ok.injEq] at made
      exact ⟨trivial, made.symm⟩
  | .dir mode stream, made => by
      rw [rxfileCreateFromFile] at made
      obtain ⟨ends, same⟩ := readdirLoop_ok fuel _ files stream _ 0 rfl made
      exact ⟨ends, same⟩

theorem readdirLoop_ok (fuel : Nat) (f : Rxfile) (result : List Rxfile) :
    (stream : Stream) → (files : List Rxfile) → (cf : Nat) → files.length = cf + 1 →
      readdirLoop fuel f stream files cf = some (.ok result) →
      (∀ entry ∈ stream.listed, entry.2.Single) ∧ result = files ++ stream.files f
  | .done, files, cf, _, made => by
      rw [readdirLoop, Option.some.injEq, Except.ok.injEq] at made
      subst made
      rw [Stream.files, Stream.listed, List.map_nil, List.append_nil]
      exact ⟨List.forall_mem_nil _, rfl⟩
  | .entry dname tree rest, files, cf, last, made => by
      rw [readdirLoop] at made
      rw [Stream.files, Stream.listed]
      split at made
      · rename_i skipped
        rw [if_pos skipped]
        exact readdirLoop_ok fuel f result rest files cf last made
      · rename_i kept
        rw [if_neg kept]
        split at made
        · cases made
        · simp at made
        · rename_i ff child
          obtain ⟨ends, same⟩ := rxfileCreateFromFile_ok fuel _ _ _ ff tree child
          rw [List.take_of_length_le last.le] at made
          dsimp only at made
          split at made
          · cases made
          · rename_i next walked
            obtain ⟨rfl, short⟩ := advance_some (Nat.le_add_left 1 cf) walked
            rw [List.length_append, last] at short
            have one : ff.length ≤ 1 := by omega
            have single : tree.Single := Tree.single_of_files ends (same ▸ one)
            rw [Tree.files_single single, Option.getD_some] at same
            obtain ⟨others, all⟩ := readdirLoop_ok fuel f result rest _ _
              (by rw [same, List.length_append, List.length_singleton, last]) made
            refine ⟨List.forall_mem_cons.mpr ⟨single, others⟩, ?_⟩
            rw [all, same, List.map_cons, List.append_assoc, List.singleton_append, Stream.files]

end

mutual

theorem rxfileCreateFromFile_ends (fuel fs : Nat) (name : Option Path) (path : Path) :
    (tree : Tree) → tree.Ends →
      rxfileCreateFromFile (fuel + 1) fs name path tree = some (.ok (tree.files fs (name.getD (lastName path)) path))
  | .lost ecode, ends => ends.elim
  | .file mode, _ => rfl
  | .dir mode stream, ends => by
      rw [rxfileCreateFromFile]
      exact readdirLoop_ends fuel _ stream _ 0 rfl ends

theorem readdirLoop_ends (fuel : Nat) (f : Rxfile) :
    (stream : Stream) → (files : List Rxfile) → (cf : Nat) → files.length = cf + 1 →
      (∀ entry ∈ stream.listed, entry.2.Single) →
      readdirLoop (fuel + 1) f stream files cf = some (.ok (files ++ stream.files f))
  | .done, files, cf, _, _ => by
      rw [readdirLoop, Stream.files, Stream.listed, List.map_nil, List.append_nil]
  | .entry dname tree rest, files, cf, last, singles => by
      rw [Stream.listed] at singles
      rw [readdirLoop, Stream.files, Stream.listed]
      split at singles
      · rename_i skipped
        rw [if_pos skipped, if_pos skipped]
        exact readdirLoop_ends fuel f rest files cf last singles
      · rename_i kept
        obtain ⟨single, others⟩ := List.forall_mem_cons.mp singles
        rw [if_neg kept, if_neg kept, rxfileCreateFromFile_ends fuel _ _ _ tree single.ends,
          Tree.files_single single, List.take_of_length_le last.le]
        dsimp only
        rw [List.length_append, List.length_singleton, last, advance_last]
        dsimp only
        rw [readdirLoop_ends fuel f rest _ _ (by rw [List.length_append, List.length_singleton, last]) others,
          List.map_cons, List.append_assoc, List.singleton_append, Stream.files, Option.getD_some]

end

theorem passed_dots {dname : Path} (dots : dname = [46] ∨ dname = [46, 46]) : passed dname = true := by
  rcases dots with rfl | rfl <;> rfl

theorem Tree.nodes_ne_nil (tree : Tree) : 1 ≤ tree.nodes.length := by
  cases tree <;> rw [Tree.nodes, List.length_cons] <;> omega

theorem Stream.nodes_eq_nil : (stream : Stream) → stream.nodes = [] → stream.entries = []
  | .done, _ => rfl
  | .entry dname tree rest, none_ => by
      rw [Stream.nodes] at none_
      rw [Stream.entries]
      split at none_
      · rename_i dots
        rw [if_pos dots]
        exact Stream.nodes_eq_nil rest none_
      · have some_ := tree.nodes_ne_nil
        rw [List.append_eq_nil_iff, List.map_eq_nil_iff] at none_
        rw [none_.1] at some_
        exact absurd some_ (Nat.not_succ_le_zero 0)

theorem Tree.Single.leaf {tree : Tree} (single : tree.Single) (alone : tree.nodes.length = 1) : tree.Leaf := by
  cases tree with
  | lost ecode => exact single
  | file mode => exact single
  | dir mode stream =>
      rw [Tree.nodes, List.length_cons] at alone
      exact stream.nodes_eq_nil (List.length_eq_zero_iff.mp (by omega))

theorem Stream.nodes_length : (stream : Stream) → (∀ entry ∈ stream.listed, entry.2.Single) →
    stream.listed.length ≤ stream.nodes.length ∧ (stream.listed.length = stream.nodes.length →
      ∀ entry ∈ stream.entries, passed entry.1 = false ∧ entry.2.Leaf)
  | .done, _ => ⟨le_refl _, fun _ => List.forall_mem_nil _⟩
  | .entry dname tree rest, singles => by
      rw [Stream.listed] at singles ⊢
      rw [Stream.nodes, Stream.entries]
      by_cases dots : dname = [46] ∨ dname = [46, 46]
      · rw [if_pos (passed_dots dots)] at singles ⊢
        rw [if_pos dots, if_pos dots]
        exact Stream.nodes_length rest singles
      · rw [if_neg dots, if_neg dots, List.length_append, List.length_map]
        have some_ := tree.nodes_ne_nil
        cases skipped : passed dname with
        | true =>
            rw [skipped, if_pos rfl] at singles
            rw [if_pos rfl]
            obtain ⟨less, -⟩ := Stream.nodes_length rest singles
            exact ⟨by omega, fun all => by omega⟩
        | false =>
            rw [skipped, if_neg Bool.false_ne_true] at singles
            rw [if_neg Bool.false_ne_true, List.length_cons]
            obtain ⟨single, others⟩ := List.forall_mem_cons.mp singles
            obtain ⟨less, flat⟩ := Stream.nodes_length rest others
            refine ⟨by omega, fun all => ?_⟩
            have alone : tree.nodes.length = 1 := by omega
            exact List.forall_mem_cons.mpr ⟨⟨skipped, Tree.Single.leaf single alone⟩, flat (by omega)⟩

theorem Stream.flat : (stream : Stream) → (∀ entry ∈ stream.entries, passed entry.1 = false ∧ entry.2.Leaf) →
    stream.listed = stream.entries ∧ stream.nodes = stream.entries.map fun entry => ([entry.1], entry.2.perm)
  | .done, _ => ⟨rfl, rfl⟩
  | .entry dname tree rest, flat => by
      rw [Stream.entries] at flat ⊢
      rw [Stream.listed, Stream.nodes]
      by_cases dots : dname = [46] ∨ dname = [46, 46]
      · rw [if_pos dots] at flat ⊢
        rw [if_pos (passed_dots dots), if_pos dots]
        exact Stream.flat rest flat
      · rw [if_neg dots] at flat ⊢
        obtain ⟨⟨plain, leaf⟩, others⟩ := List.forall_mem_cons.mp flat
        obtain ⟨listed, nodes⟩ := Stream.flat rest others
        have alone : tree.nodes = [([], tree.perm)] := by
          cases tree with
          | lost ecode => rfl
          | file mode => rfl
          | dir mode stream =>
              have nothing : stream.entries = [] := leaf
              have inner := (Stream.flat stream (nothing ▸ List.forall_mem_nil _)).2
              rw [Tree.nodes, inner, nothing, List.map_nil]
        dsimp only at plain
        rw [plain, if_neg Bool.false_ne_true, if_neg dots, listed, nodes, alone, List.map_singleton, List.map_cons,
          List.singleton_append]
        exact ⟨rfl, rfl⟩

theorem Tree.Leaf.single {tree : Tree} (leaf : tree.Leaf) : tree.Single := by
  cases tree with
  | lost ecode => exact leaf
  | file mode => exact leaf
  | dir mode stream =>
      have nothing : stream.entries = [] := leaf
      have listed := (stream.flat (nothing ▸ List.forall_mem_nil _)).1
      exact listed.trans nothing

theorem Tree.Flat.ends {tree : Tree} (flat : tree.Flat) : tree.Ends := by
  cases tree with
  | lost ecode => exact flat
  | file mode => exact flat
  | dir mode stream =>
      intro entry member
      rw [(stream.flat flat).1] at member
      exact (flat entry member).2.single

theorem Tree.Flat.lists {tree : Tree} (flat : tree.Flat) (fs : Nat) (name path : Path) :
    Lists fs name path tree (tree.files fs name path) := by
  refine ⟨tree.nodes, List.Perm.refl _, ?_⟩
  cases tree with
  | lost ecode => exact flat.elim
  | file mode => exact ⟨List.pairwise_singleton _ _, rfl⟩
  | dir mode stream =>
      obtain ⟨listed, nodes⟩ := stream.flat flat
      rw [Tree.nodes, nodes]
      constructor
      · rw [List.pairwise_cons, List.pairwise_map]
        constructor
        · rintro later member ⟨below, other⟩
          exact other (List.prefix_nil.mp below)
        · refine List.pairwise_of_forall ?_
          rintro earlier later ⟨below, other⟩
          exact other (below.eq_of_length rfl)
      · rw [Tree.files, Stream.files, listed, List.map_cons, List.map_map]
        rfl

/-- The function returns a list of the whole tree exactly when the tree is flat. -/
theorem rxfileCreateFromFile_lists_iff (fs : Nat) (name : Option Path) (path : Path) (tree : Tree) :
    (∃ fuel files, rxfileCreateFromFile fuel fs name path tree = some (.ok files) ∧
      Lists fs (name.getD (lastName path)) path tree files) ↔ tree.Flat := by
  constructor
  · rintro ⟨fuel, files, made, order, all, -, same⟩
    obtain ⟨ends, list⟩ := rxfileCreateFromFile_ok fuel fs name path files tree made
    have length : (tree.files fs (name.getD (lastName path)) path).length = tree.nodes.length := by
      rw [← list, same, List.length_map, all.length_eq]
    cases tree with
    | lost ecode => exact ends
    | file mode => exact ends
    | dir mode stream =>
        rw [Tree.files, Stream.files, Tree.nodes, List.length_cons, List.length_cons, List.length_map] at length
        exact (stream.nodes_length ends).2 (by omega)
  · intro flat
    exact ⟨1, _, rxfileCreateFromFile_ends 0 fs name path tree flat.ends, flat.lists fs _ path⟩

/-- A directory `d` with a directory `e` in it that has a file `f`. -/
def nested : Tree := .dir 0 (.entry [101] (.dir 0 (.entry [102] (.file 0) .done)) .done)

/-- The walk to the end of the list of `e` never ends. -/
theorem nested_never : ¬∃ fuel result, rxfileCreateFromFile fuel 0 none [100] nested = some result := by
  rintro ⟨fuel, result, returned⟩
  cases fuel with
  | zero =>
      have inner : rxfileCreateFromFile 0 0 none [100] nested = none := by decide
      rw [inner] at returned
      cases returned
  | succ fuel =>
      have inner : advance (fuel + 1) 2 1 = some 1 := advance_last
      have outer : advance (fuel + 1) 3 1 = none := advance_none (le_refl 1) (by omega)
      simp [nested, rxfileCreateFromFile, readdirLoop, passed, inner, outer] at returned

end Xcpu.Xcpufs.RxfileTree
