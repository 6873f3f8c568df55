import Xcpu.Libspfs.FidTouched

/-!
Requests that are answered with Rerror, and the fids that were in the table before: whether each
is still there, open as it was, of its type and at its file.
-/

namespace Xcpu.Libspfs.File

open Xcpu.Keyed Xcpu.Transition

section Callbacks

variable {State User Group : Type} [DecidableEq User] (ops : Fileops State User Group)
  (tree : Files State User Group) (user : Option User) (aux : Option Spfilefid)

omit [DecidableEq User] in
theorem withFile_rule {Value : Type} {property : Back (Files State User Group) Spfilefid Value → Prop}
    {body : Spfilefid → Spfile User Group → Back (Files State User Group) Spfilefid Value}
    (fault : property (refused tree.faulted aux))
    (runs : ∀ f file, aux = some f → tree.file f.file = some file → file.live → property (body f file)) :
    property (withFile tree aux body) := by
  obtain same | ⟨f, file, held, found, live, same⟩ := withFile_cases tree aux body
  · rw [same]
    exact fault
  · rw [same]
    exact runs f file held found live

/-- The fid is at its file afterwards. -/
def Stays {Value : Type} (back : Back (Files State User Group) Spfilefid Value) : Prop :=
  back.aux.map Spfilefid.file = aux.map Spfilefid.file

omit [DecidableEq User] in
theorem spfileRead_stays (fid offset count : Nat) : Stays aux (spfileRead ops tree fid aux offset count) := by
  apply withFile_rule tree aux
  · rfl
  · rintro f file rfl found -
    split
    · split <;> rfl
    · split <;> rfl

omit [DecidableEq User] in
theorem spfileWrite_stays (fid offset count : Nat) : Stays aux (spfileWrite ops tree fid aux offset count) := by
  apply withFile_rule tree aux
  · rfl
  · rintro f file rfl found -
    split
    · rfl
    · split <;> rfl

omit [DecidableEq User] in
theorem spfileStat_stays : Stays aux (spfileStat tree aux) := by
  apply withFile_rule tree aux
  · rfl
  · rintro f file rfl found -
    rfl

theorem spfileWstat_stays (stat : Spstat) : Stays aux (spfileWstat ops tree user aux stat) := by
  apply withFile_rule tree aux
  · rfl
  · rintro f file rfl found -
    dsimp only
    split_ifs
    · rfl
    · rfl
    · rfl
    · rfl
    · rfl
    · split
      · rfl
      · split <;> rfl

def FailsInPlace {Value : Type} (back : Back (Files State User Group) Spfilefid Value) : Prop :=
  back.value = none → Stays aux back

theorem spfileWalk_failsInPlace (name : List UInt8) : FailsInPlace aux (spfileWalk ops tree user aux name) := by
  apply withFile_rule tree aux
  · exact fun _ => rfl
  · rintro f dir rfl found -
    split
    · split
      · exact fun _ => rfl
      · rintro ⟨⟩
    · exact fun _ => rfl

/-- A `Tcreate` gets as far as making a file. -/
def Makes (name : List UInt8) (perm mode : Nat) : Prop :=
  ∃ f dir, aux = some f ∧ tree.file f.file = some dir ∧ dir.live ∧
    name ≠ dotdot ∧ dir.isDir ∧ ops.lists dir ∧
    (findFrom tree name (tree.children dir.ref)).1 = none ∧ creates ops tree dir user name perm mode

theorem makes_iff {f : Spfilefid} {dir : Spfile User Group} {name : List UInt8} {perm mode : Nat}
    (found : tree.file f.file = some dir) (live : dir.live) : Makes ops tree user (some f) name perm mode ↔
      name ≠ dotdot ∧ dir.isDir ∧ ops.lists dir ∧ (findFrom tree name (tree.children dir.ref)).1 = none ∧
        creates ops tree dir user name perm mode := by
  constructor
  · rintro ⟨_, other, ⟨⟩, same, -, rest⟩
    rw [found] at same
    obtain rfl := Option.some.inj same
    exact rest
  · exact fun rest => ⟨f, dir, rfl, found, live, rest⟩

theorem spfileCreate_cases (name : List UInt8) (perm mode : Nat) :
    (Makes ops tree user aux name perm mode ∧
      ∃ rc, (spfileCreate ops tree user aux name perm mode).value = some rc ∧ rc.type = .rcreate) ∨
    (¬ Makes ops tree user aux name perm mode ∧ (spfileCreate ops tree user aux name perm mode).value = none ∧
      Stays aux (spfileCreate ops tree user aux name perm mode)) := by
  cases aux with
  | none =>
      refine .inr ⟨?_, rfl, rfl⟩
      rintro ⟨f, dir, ⟨⟩, -⟩
  | some f =>
      cases found : tree.file f.file with
      | none =>
          rw [spfileCreate, withFile, found]
          refine .inr ⟨?_, rfl, rfl⟩
          rintro ⟨_, dir, ⟨⟩, same, -⟩
          rw [found] at same
          cases same
      | some dir =>
          by_cases live : dir.live
          · rw [spfileCreate, withFile_some found live, makes_iff ops tree user found live, spfileFind]
            by_cases dots : name = dotdot
            · rw [if_pos dots]
              refine .inr ⟨fun makes => makes.1 dots, ?_⟩
              cases dir.parent with
              | none =>
                  dsimp only
                  rw [if_pos (.inr dots)]
                  exact ⟨rfl, rfl⟩
              | some parent => exact ⟨rfl, rfl⟩
            · rw [if_neg dots]
              by_cases directory : dir.isDir = true
              · rw [directory]
                simp only [Bool.not_true, Bool.false_eq_true, if_false]
                by_cases lists : ops.lists dir = true
                · rw [if_pos lists]
                  have kept := findFrom_state tree name (tree.children dir.ref)
                  generalize findFrom tree name (tree.children dir.ref) = search at kept ⊢
                  obtain ⟨nfile, next⟩ := search
                  cases nfile with
                  | some nfile => exact .inr ⟨fun makes => by simpa using makes.2.2.2.1, rfl, rfl⟩
                  | none =>
                      dsimp only at kept ⊢
                      split_ifs with plain writes permitted
                      · refine .inr ⟨?_, rfl, rfl⟩
                        rintro ⟨-, -, -, -, goes⟩
                        exact plain.elim goes.1 dots
                      · refine .inr ⟨?_, rfl, rfl⟩
                        rintro ⟨-, -, -, -, goes⟩
                        simp [goes.2.1] at writes
                      · refine .inr ⟨?_, rfl, rfl⟩
                        rintro ⟨-, -, -, -, goes⟩
                        simp [goes.2.2.1] at permitted
                      · cases operation : ops.create dir with
                        | none =>
                            refine .inr ⟨?_, rfl, rfl⟩
                            rintro ⟨-, -, -, -, -, -, -, create, there, -⟩
                            rw [operation] at there
                            cases there
                        | some create =>
                            dsimp only
                            rw [kept]
                            cases answer : (create tree.state name (createPerm dir perm)).value with
                            | none =>
                                refine .inr ⟨?_, rfl, rfl⟩
                                rintro ⟨-, -, -, -, -, -, -, other, there, made⟩
                                rw [operation] at there
                                obtain rfl := Option.some.inj there
                                exact made answer
                            | some fmode =>
                                refine .inl ⟨⟨dots, trivial, lists, rfl, fun dot => plain (.inl dot),
                                  by simpa using writes, by simpa using permitted, create, operation,
                                  by rw [answer]; simp⟩, ?_⟩
                                dsimp only
                                split
                                · exact ⟨_, rfl, rfl⟩
                                · exact ⟨_, rfl, rfl⟩
                · rw [if_neg lists]
                  exact .inr ⟨fun makes => lists makes.2.2.1, rfl, rfl⟩
              · rw [if_pos (by simpa using directory)]
                exact .inr ⟨fun makes => directory makes.2.1, rfl, rfl⟩
          · rw [spfileCreate, withFile, found]
            dsimp only
            rw [if_neg live]
            refine .inr ⟨?_, rfl, rfl⟩
            rintro ⟨_, other, ⟨⟩, same, alive, -⟩
            rw [found] at same
            obtain rfl := Option.some.inj same
            exact live alive

end Callbacks

section Handlers

variable {State User Group : Type} [DecidableEq User] {ops : Fileops State User Group} {msize : Nat}
  {finduser : State → Spfcall → Packet → Option User} {flush : State → Spreq → State × Bool}
  {srv : Spsrv (Files State User Group) User Spfilefid} {conn now next : Spconn (Files State User Group) User Spfilefid}
  {f : Spfid User Spfilefid} {tc : Spfcall} {pkt : Packet} {outcome : Outcome}
  (is : srv = spfileInitSrv ops msize finduser flush)

/-- The handler of a message on a fid has left the fid as it was exactly under a condition. -/
def Ends (conn : Spconn (Files State User Group) User Spfilefid) (tc : Spfcall) (f : Spfid User Spfilefid)
    (same : Prop) (now : Spconn (Files State User Group) User Spfilefid) : Prop :=
  ∃ g, Touched (conn.accept tc) now conn.nextRef 1 f g ∧ (Same f g ↔ same)

omit [DecidableEq User] in
theorem ends_bound (member : f ∈ conn.fids) :
    Ends conn tc f True ((conn.accept tc).bindFid conn.nextRef f.ref) :=
  ⟨_, bindFid_touched member, fun _ => trivial, fun _ => ⟨rfl, rfl, rfl, rfl, rfl⟩⟩

omit [DecidableEq User] in
theorem ends_called {Value : Type} {back : Back (Files State User Group) Spfilefid Value} (member : f ∈ conn.fids)
    (stays : Stays f.aux back) :
    Ends conn tc f True (((conn.accept tc).bindFid conn.nextRef f.ref).called f.ref back) :=
  ⟨_, (bindFid_touched member).called, fun _ => trivial, fun _ => ⟨rfl, rfl, rfl, rfl, stays⟩⟩

omit [DecidableEq User] in
theorem withFid_some {req fid : Nat} {start : Spconn (Files State User Group) User Spfilefid}
    {body : Spconn (Files State User Group) User Spfilefid → Spfid User Spfilefid →
      Option (Spconn (Files State User Group) User Spfilefid × Outcome)} (found : spFidFind start fid = some f)
    (ran : withFid start req fid body = some (now, outcome)) :
    body (start.bindFid req f.ref) f = some (now, outcome) := by
  rw [withFid, found] at ran
  exact ran

variable (member : f ∈ conn.fids) (found : spFidFind (conn.accept tc) tc.fid = some f)
include is member found

theorem spStat_ends (ran : spStat srv (conn.accept tc) conn.nextRef tc = some (now, outcome)) :
    Ends conn tc f True now := by
  have ran := withFid_some found ran
  rw [is] at ran
  obtain ⟨rfl, -⟩ := Prod.mk.inj (Option.some.inj ran)
  exact ends_called member (spfileStat_stays _ f.aux)

theorem spWstat_ends (ran : spWstat srv (conn.accept tc) conn.nextRef tc pkt = some (now, outcome)) :
    Ends conn tc f True now := by
  have ran := withFid_some found ran
  split at ran
  · obtain ⟨rfl, -⟩ := Prod.mk.inj (Option.some.inj ran)
    exact ends_bound member
  · rw [is] at ran
    obtain ⟨rfl, -⟩ := Prod.mk.inj (Option.some.inj ran)
    exact ends_called member (spfileWstat_stays ops _ f.user f.aux tc.stat)

theorem spRead_ends (ran : spRead srv (conn.accept tc) conn.nextRef tc = some (now, outcome)) :
    Ends conn tc f True now := by
  have ran := withFid_some found ran
  dsimp only at ran
  split_ifs at ran with large auth asks shut offset
  · obtain ⟨rfl, -⟩ := Prod.mk.inj (Option.some.inj ran)
    exact ends_bound member
  · rw [is] at asks
    cases asks
  · obtain ⟨rfl, -⟩ := Prod.mk.inj (Option.some.inj ran)
    exact ends_bound member
  · obtain ⟨rfl, -⟩ := Prod.mk.inj (Option.some.inj ran)
    exact ends_bound member
  · obtain ⟨rfl, -⟩ := Prod.mk.inj (Option.some.inj ran)
    exact ends_bound member
  · obtain ⟨r, waiting, called⟩ := Option.bind_eq_some_iff.mp ran
    rw [is] at called
    obtain ⟨rfl, -⟩ := Prod.mk.inj (Option.some.inj called)
    exact ends_called member (spfileRead_stays ops _ f.aux f.fid tc.offset tc.count)

theorem spWrite_ends (ran : spWrite srv (conn.accept tc) conn.nextRef tc pkt = some (now, outcome)) :
    Ends conn tc f True now := by
  have ran := withFid_some found ran
  dsimp only at ran
  split_ifs at ran with auth asks shut large
  · rw [is] at asks
    cases asks
  · obtain ⟨rfl, -⟩ := Prod.mk.inj (Option.some.inj ran)
    exact ends_bound member
  · obtain ⟨rfl, -⟩ := Prod.mk.inj (Option.some.inj ran)
    exact ends_bound member
  · obtain ⟨rfl, -⟩ := Prod.mk.inj (Option.some.inj ran)
    exact ends_bound member
  · obtain ⟨r, waiting, called⟩ := Option.bind_eq_some_iff.mp ran
    rw [is] at called
    obtain ⟨rfl, -⟩ := Prod.mk.inj (Option.some.inj called)
    exact ends_called member (spfileWrite_stays ops _ f.aux f.fid tc.offset tc.count)

/-- An open that gets to the file's own leaves the mode, whatever the answer. -/
theorem spOpen_ends (byte : tc.mode < 256)
    (ran : spOpen srv (conn.accept tc) conn.nextRef tc = some (now, outcome)) :
    Ends conn tc f (f.omode ≠ omodeNone ∨ f.type &&& qtdir ≠ 0 ∧ tc.mode ≠ Oread) now := by
  have ran := withFid_some found ran
  dsimp only at ran
  split_ifs at ran with opened directory
  · obtain ⟨rfl, -⟩ := Prod.mk.inj (Option.some.inj ran)
    obtain ⟨g, touched, same⟩ := @ends_bound _ _ _ conn f tc member
    exact ⟨g, touched, same.trans (by simp [opened])⟩
  · obtain ⟨rfl, -⟩ := Prod.mk.inj (Option.some.inj ran)
    obtain ⟨g, touched, same⟩ := @ends_bound _ _ _ conn f tc member
    exact ⟨g, touched, same.trans (by simp [directory])⟩
  · obtain ⟨rfl, -⟩ := Prod.mk.inj (Option.some.inj ran)
    refine ⟨_, (bindFid_touched member).called.relabel (fun _ => rfl) rfl, ?_⟩
    have shut : f.omode = omodeNone := by simpa using opened
    constructor
    · intro same
      have mode : tc.mode = f.omode := same.omode
      rw [shut, omodeNone] at mode
      omega
    · rintro (other | other)
      · exact (opened other).elim
      · exact (directory other).elim

/-- A create that makes a file leaves the mode, also where an error stands. -/
theorem spCreate_ends (byte : tc.mode < 256)
    (ran : spCreate srv (conn.accept tc) conn.nextRef tc pkt = some (now, outcome)) :
    Ends conn tc f (f.omode ≠ omodeNone ∨ tc.perm &&& Dmdir ≠ 0 ∧ tc.mode ≠ Oread ∨
      tc.perm &&& dmspecial ≠ 0 ∧ ¬ conn.dotu ∨
      ¬ Makes ops conn.tree f.user f.aux (tc.name.bytes pkt) tc.perm tc.mode) now := by
  have ran := withFid_some found ran
  dsimp only at ran
  split_ifs at ran with opened directory special
  · obtain ⟨rfl, -⟩ := Prod.mk.inj (Option.some.inj ran)
    obtain ⟨g, touched, same⟩ := @ends_bound _ _ _ conn f tc member
    exact ⟨g, touched, same.trans (by simp [opened])⟩
  · obtain ⟨rfl, -⟩ := Prod.mk.inj (Option.some.inj ran)
    obtain ⟨g, touched, same⟩ := @ends_bound _ _ _ conn f tc member
    exact ⟨g, touched, same.trans (by simp [directory])⟩
  · obtain ⟨rfl, -⟩ := Prod.mk.inj (Option.some.inj ran)
    obtain ⟨g, touched, same⟩ := @ends_bound _ _ _ conn f tc member
    have special : tc.perm &&& dmspecial ≠ 0 ∧ ¬ conn.dotu = true := special
    exact ⟨g, touched, same.trans (iff_of_true trivial (.inr (.inr (.inl special))))⟩
  · obtain ⟨rfl, -⟩ := Prod.mk.inj (Option.some.inj ran)
    rw [is]
    have shut : f.omode = omodeNone := by simpa using opened
    have special : ¬ (tc.perm &&& dmspecial ≠ 0 ∧ ¬ conn.dotu = true) := special
    obtain ⟨makes, ⟨type, qidType, count⟩, answer, kind⟩ | ⟨none, answer, stays⟩ :=
      spfileCreate_cases ops conn.tree f.user f.aux (tc.name.bytes pkt) tc.perm tc.mode
    · obtain rfl : type = .rcreate := kind
      have value : ((spfileInitSrv ops msize finduser flush).create
          ((conn.accept tc).bindFid conn.nextRef f.ref).tree f tc pkt).value = some ⟨.rcreate, qidType, count⟩ := answer
      rw [value]
      refine ⟨_, (bindFid_touched member).called.relabel (fun _ => rfl) rfl, ?_⟩
      constructor
      · intro same
        have mode : tc.mode = f.omode := same.omode
        rw [shut, omodeNone] at mode
        omega
      · rintro (other | other | other | other)
        · exact (opened other).elim
        · exact (directory other).elim
        · exact (special other).elim
        · exact (other makes).elim
    · have value : ((spfileInitSrv ops msize finduser flush).create
          ((conn.accept tc).bindFid conn.nextRef f.ref).tree f tc pkt).value = Option.none := answer
      rw [value]
      obtain ⟨g, touched, same⟩ := @ends_called _ _ _ conn f tc _ _ member stays
      exact ⟨g, touched, same.trans (iff_of_true trivial (.inr (.inr (.inr none))))⟩

/-- The walk takes the last reference of another fid, which has the number asked for. -/
def Takes (conn : Spconn (Files State User Group) User Spfilefid) (tc : Spfcall) (f : Spfid User Spfilefid) : Prop :=
  f.omode = omodeNone ∧ tc.nwname ≤ maxwelem ∧ tc.fid ≠ tc.newfid ∧
    ∃ used, spFidFind conn tc.newfid = some used ∧ used.refcount = 1

omit member found in
/-- A walk on a new fid leaves the one walked from. -/
theorem spWalkOn_new {newfid : Nat} {g : Spfid User Spfilefid}
    (touched : Touched (conn.accept tc) now conn.nextRef 1 f g) (other : newfid ≠ f.ref)
    (fresh : newfid ∉ conn.fids.map Spfid.ref) (safe : Safe False now) (shut : Shut now newfid)
    {last : Spconn (Files State User Group) User Spfilefid}
    (ran : spWalkOn srv now newfid true tc pkt = some (last, outcome)) :
    Touched (conn.accept tc) last conn.nextRef 1 f g := by
  rw [spWalkOn] at ran
  have walked : Touched (conn.accept tc)
      (walkNames srv (spFidIncref now newfid) newfid pkt (tc.wnames.take tc.nwname)).2.1 conn.nextRef 1 f g :=
    (touched.setNew other fresh _).walkNames other fresh
  have kept : Safe False (walkNames srv (spFidIncref now newfid) newfid pkt (tc.wnames.take tc.nwname)).2.1 :=
    walkNames_safe is (safe.incref newfid) (shut.setFid (fun _ => rfl) fun _ => rfl)
  generalize walkNames srv (spFidIncref now newfid) newfid pkt (tc.wnames.take tc.nwname) = result
    at ran walked kept
  obtain ⟨count, mid, error⟩ := result
  dsimp only at ran walked kept
  split at ran
  · obtain ⟨next, dropped, same⟩ := Option.map_eq_some_iff.mp ran
    obtain ⟨rfl, -⟩ := Prod.mk.inj same
    exact walked.decref_other kept other (fun _ _ _ listed => (fresh listed).elim) dropped
  · obtain ⟨next, dropped, same⟩ := Option.map_eq_some_iff.mp ran
    obtain ⟨rfl, -⟩ := Prod.mk.inj same
    exact (walked.setNew other fresh _).decref_other (kept.incref newfid) other
      (fun _ _ _ listed => (fresh listed).elim) dropped

omit member found in
theorem spWalkOn_place (start : Safe False now) (there : At now f) {g : Spfid User Spfilefid}
    (touched : Touched (conn.accept tc) now conn.nextRef 1 f g) (same : Same f g) (shut : f.omode = omodeNone)
    {last : Spconn (Files State User Group) User Spfilefid}
    (ran : spWalkOn srv now f.ref false tc pkt = some (last, outcome)) :
    last.sent = conn.sent ∧ (outcome = .replied .rwalk ∨ Ends conn tc f True last ∨
      f.ref ∉ last.fids.map Spfid.ref ∧ ∃ r, last.reqAt conn.nextRef = some r ∧ r.fid = some f.ref) := by
  rw [spWalkOn] at ran
  have twice := touched.incref
  have kept : Safe False (walkNames srv (spFidIncref now f.ref) f.ref pkt (tc.wnames.take tc.nwname)).2.1 :=
    walkNames_safe is (start.incref f.ref) ((there.shut shut).setFid (fun _ => rfl) fun _ => rfl)
  have queue := @walkNames_queue _ _ _ srv (spFidIncref now f.ref) f.ref pkt (tc.wnames.take tc.nwname)
  have zero := @walkNames_zero _ _ _ srv (spFidIncref now f.ref) f.ref pkt (tc.wnames.take tc.nwname)
  generalize walkNames srv (spFidIncref now f.ref) f.ref pkt (tc.wnames.take tc.nwname) = result
    at ran kept queue zero
  obtain ⟨count, mid, error⟩ := result
  dsimp only at ran kept queue zero
  split at ran
  · rename_i failed
    obtain ⟨next, dropped, same'⟩ := Option.map_eq_some_iff.mp ran
    obtain ⟨rfl, -⟩ := Prod.mk.inj same'
    have stood : ∃ g, Touched (conn.accept tc) mid conn.nextRef (1 + 1) f g ∧ Same f g := by
      obtain rfl | ⟨old, name, found, none, rfl⟩ := zero failed.1
      · exact ⟨_, twice, same.trans ⟨rfl, rfl, rfl, rfl, rfl⟩⟩
      · obtain ⟨inside, number⟩ : old ∈ (spFidIncref now f.ref).fids ∧ old.ref = f.ref := find?_key found
        obtain rfl := List.inj_on_of_nodup_map (start.incref f.ref).refs inside twice.inside
          (number.trans twice.ref.symm)
        rw [is] at none
        have stays := spfileWalk_failsInPlace ops now.tree g.user g.aux name none
        refine ⟨_, twice.called, same.trans ⟨rfl, rfl, rfl, rfl, ?_⟩⟩
        rw [is]
        exact stays
    obtain ⟨g', touched', same'⟩ := stood
    refine ⟨(spFidDecref_queue dropped).sent.trans touched'.sent, ?_⟩
    obtain ⟨-, gone⟩ | after := touched'.decref kept dropped
    · obtain ⟨r, waiting, held⟩ := touched'.bound
      refine .inr (.inr ⟨gone, r, ?_, held⟩)
      rw [Spconn.reqAt, (spFidDecref_queue dropped).workreqs]
      exact waiting
    · exact .inr (.inl ⟨_, after, fun _ => trivial, fun _ => same'.trans ⟨rfl, rfl, rfl, rfl, rfl⟩⟩)
  · obtain ⟨next, dropped, same'⟩ := Option.map_eq_some_iff.mp ran
    obtain ⟨rfl, rfl⟩ := Prod.mk.inj same'
    exact ⟨(spFidDecref_queue dropped).sent.trans (queue.sent.trans touched.sent), .inl rfl⟩

omit [DecidableEq User] is found in
theorem bound_used {newfid : Nat} {used : Spfid User Spfilefid} (start : Safe False conn) (other : f.fid ≠ newfid)
    (there : spFidFind ((conn.accept tc).bindFid conn.nextRef f.ref) newfid = some used) :
    spFidFind conn newfid = some used ∧ used.ref ≠ f.ref := by
  obtain ⟨inside, number⟩ := find?_key there
  obtain ⟨old, before, same⟩ := mem_update.mp inside
  by_cases here : old.ref = f.ref
  · obtain rfl := List.inj_on_of_nodup_map start.refs before member here
    rw [if_pos rfl] at same
    rw [same] at number
    exact (other number).elim
  · rw [if_neg here] at same
    subst same
    exact ⟨find?_of_mem start.numbers before number, here⟩

omit [DecidableEq User] is member found in
theorem bound_unused {newfid : Nat}
    (there : spFidFind ((conn.accept tc).bindFid conn.nextRef f.ref) newfid = none) : spFidFind conn newfid = none := by
  have numbers : ((conn.accept tc).bindFid conn.nextRef f.ref).fids.map Spfid.fid = conn.fids.map Spfid.fid :=
    update_map Spfid.fid fun _ => rfl
  apply find?_none_iff.mpr
  rw [← numbers]
  exact find?_none_iff.mp there

theorem spWalk_kept_iff (start : Safe False conn)
    (ran : spWalk srv (conn.accept tc) conn.nextRef tc pkt = some (now, outcome))
    (answered : answerOutcome srv now conn.nextRef outcome = some next) (failed : Failed conn next) :
    Kept conn next ↔ f.refcount ≠ 0 ∧ ¬ Takes conn tc f := by
  have accepted : Safe False (conn.accept tc) := start.congr rfl (Nat.le_succ _) rfl
  have safe : Safe False now := spWalk_leaves is accepted now outcome ran
  have bound := accepted.bindFid conn.nextRef f.ref
  have touched := @bindFid_touched _ _ _ conn f tc member
  have number : f.fid = tc.fid := (find?_key found).2
  have fine (ends : Ends conn tc f True now) (none : ¬ Takes conn tc f) :
      Kept conn next ↔ f.refcount ≠ 0 ∧ ¬ Takes conn tc f := by
    obtain ⟨g, touched, same⟩ := ends
    rw [touched.failed_iff start member safe answered failed]
    simp [same, none]
  have ran := withFid_some found ran
  dsimp only at ran
  split_ifs at ran with opened many place
  · obtain ⟨rfl, -⟩ := Prod.mk.inj (Option.some.inj ran)
    exact fine (ends_bound member) fun takes => opened takes.1
  · obtain ⟨rfl, -⟩ := Prod.mk.inj (Option.some.inj ran)
    exact fine (ends_bound member) fun takes => absurd takes.2.1 (by omega)
  · have same : Same f { f with refcount := f.refcount + 1 } := ⟨rfl, rfl, rfl, rfl, rfl⟩
    obtain ⟨sent, rfl | ends | ⟨gone, r, waiting, held⟩⟩ := spWalkOn_place is bound
      ((accepted.at_found member).bindFid _ _) touched same (by simpa using opened) ran
    · obtain ⟨rc, rerror, -, error | reply⟩ := answerOutcome_rerror sent answered failed
      · cases error
      · obtain rfl := Option.some.inj reply
        cases rerror
    · exact fine ends fun takes => takes.2.2.1 place
    · obtain ⟨rc, rerror, responded, -⟩ := answerOutcome_rerror sent answered failed
      obtain ⟨mid, dropped, fids, kept, drop, -⟩ := spRespond_dropped safe waiting held rerror responded
      obtain ⟨g, here, loses⟩ := spFidDecref_dropped kept drop
      exact (gone (here ▸ List.mem_map_of_mem (fids ▸ loses.inside))).elim
  · have apart : f.fid ≠ tc.newfid := number ▸ place
    cases there : spFidFind ((conn.accept tc).bindFid conn.nextRef f.ref) tc.newfid with
    | some used =>
        obtain ⟨known, other⟩ := bound_used member start apart there
        rw [there] at ran
        obtain ⟨last, dropped, same⟩ := Option.map_eq_some_iff.mp ran
        obtain ⟨rfl, rfl⟩ := Prod.mk.inj same
        by_cases one : used.refcount = 1
        · have takes : Takes conn tc f := ⟨by simpa using opened, by omega, place, used, known, one⟩
          obtain ⟨d, here, drop⟩ := spFidDecref_dropped bound dropped
          obtain rfl : d = used := List.inj_on_of_nodup_map bound.refs drop.inside (find?_key there).1 here
          have sent : last.sent = conn.sent := drop.sent.trans touched.sent
          obtain ⟨rc, rerror, responded, -⟩ := answerOutcome_rerror sent answered failed
          obtain ⟨r, waiting, held⟩ := touched.bound
          rw [Spconn.reqAt, ← drop.workreqs] at waiting
          obtain ⟨mid, after, fids, kept, final, same⟩ := spRespond_dropped safe waiting held rerror responded
          obtain ⟨g, -, loses⟩ := spFidDecref_dropped kept final
          refine iff_of_false ?_ fun fine => fine.2 takes
          intro all
          obtain ⟨new, left, like⟩ := all d (find?_key known).1
          obtain ⟨old, before, from_⟩ := loses.back new (same ▸ left)
          exact drop.gone one (by rw [← like.ref, from_.ref]; exact List.mem_map_of_mem (fids ▸ before))
        · have more (d : Spfid User Spfilefid) (inside : d ∈ ((conn.accept tc).bindFid conn.nextRef f.ref).fids)
              (same : d.ref = used.ref) (_ : used.ref ∈ (conn.accept tc).fids.map Spfid.ref) : d.refcount ≠ 1 := by
            rw [List.inj_on_of_nodup_map bound.refs inside (find?_key there).1 same]
            exact one
          refine fine ⟨_, touched.decref_other bound other more dropped, fun _ => trivial,
            fun _ => ⟨rfl, rfl, rfl, rfl, rfl⟩⟩ ?_
          rintro ⟨-, -, -, other, found, last⟩
          rw [known] at found
          exact one (Option.some.inj found ▸ last)
    | none =>
        have free : ¬ Takes conn tc f := by
          rintro ⟨-, -, -, used, known, -⟩
          rw [bound_unused there] at known
          cases known
        rw [there] at ran
        dsimp only at ran
        rcases made : spFidCreate ((conn.accept tc).bindFid conn.nextRef f.ref) tc.newfid with ⟨newfid, mid⟩
        rw [made] at ran
        cases newfid with
        | none =>
            obtain ⟨rfl, -⟩ := Prod.mk.inj (Option.some.inj ran)
            rw [spFidCreate] at made
            split at made
            · cases made
            · obtain ⟨-, rfl⟩ := Prod.mk.inj made
              exact fine (ends_bound member) free
        | some newfid =>
            obtain ⟨after, other, fresh⟩ := touched.created bound made
            have kept := bound.created made
            have shut := bound.new_shut made
            have cloned : Safe False
                (mid.called newfid (srv.clone mid.tree f { ref := newfid, fid := tc.newfid })) := by
              refine kept.called_shut shut ?_
              rw [is]
              exact spfileClone_invoked mid.tree f.aux
            dsimp only at ran
            split at ran
            · obtain ⟨last, dropped, same⟩ := Option.map_eq_some_iff.mp ran
              obtain ⟨rfl, -⟩ := Prod.mk.inj same
              exact fine ⟨_, (after.calledNew other fresh).decref_other cloned other
                (fun _ _ _ listed => (fresh listed).elim) dropped, fun _ => trivial,
                fun _ => ⟨rfl, rfl, rfl, rfl, rfl⟩⟩ free
            · let copy (g : Spfid User Spfilefid) : Spfid User Spfilefid := { g with user := f.user, type := f.type }
              have copied : Touched (conn.accept tc)
                  ((mid.called newfid (srv.clone mid.tree f { ref := newfid, fid := tc.newfid })).setFid newfid copy)
                  conn.nextRef 1 f { f with refcount := f.refcount + 1 } :=
                (after.calledNew other fresh).setNew other fresh copy
              have closed : Shut ((mid.called newfid (srv.clone mid.tree f { ref := newfid, fid := tc.newfid })).setFid
                  newfid copy) newfid :=
                shut.called.setFid (fun _ => rfl) fun _ => rfl
              have walked := spWalkOn_new is copied other fresh (cloned.relabel fun _ => ⟨rfl, rfl, rfl, rfl⟩)
                closed ran
              exact fine ⟨_, walked, fun _ => trivial, fun _ => ⟨rfl, rfl, rfl, rfl, rfl⟩⟩ free

end Handlers

section Steps

variable {State User Group : Type} [DecidableEq User] {ops : Fileops State User Group} {msize : Nat}
  {finduser : State → Spfcall → Packet → Option User} {flush : State → Spreq → State × Bool}
  {srv : Spsrv (Files State User Group) User Spfilefid} {conn now next : Spconn (Files State User Group) User Spfilefid}
  {tc : Spfcall} {pkt : Packet}

/-- The requests whose failure is to leave every fid as it was. -/
def concerned : List FcallType := [.topen, .tcreate, .twalk, .tstat, .twstat, .tread, .twrite]

/-- A request that is answered with Rerror, at once or, once a file operation has put it off, by
that. -/
def FailedAt (conn next : Spconn (Files State User Group) User Spfilefid) : ConnEvent → Prop
  | .message tc _ => tc.type ∈ concerned ∧ tc.mode < 256 ∧ Failed conn next
  | .answer ref rc => rc.type = .rerror ∧
      ∃ req, conn.reqAt ref = some req ∧ req.fid ≠ none ∧ (req.tcall.type = .tread ∨ req.tcall.type = .twrite)

/-- What an open, a create and a walk must not get to. -/
def Spares (ops : Fileops State User Group) (conn : Spconn (Files State User Group) User Spfilefid) (tc : Spfcall)
    (pkt : Packet) (f : Spfid User Spfilefid) : Prop :=
  match tc.type with
  | .topen => f.omode ≠ omodeNone ∨ f.type &&& qtdir ≠ 0 ∧ tc.mode ≠ Oread
  | .tcreate => f.omode ≠ omodeNone ∨ tc.perm &&& Dmdir ≠ 0 ∧ tc.mode ≠ Oread ∨
      tc.perm &&& dmspecial ≠ 0 ∧ ¬ conn.dotu ∨
      ¬ Makes ops conn.tree f.user f.aux (tc.name.bytes pkt) tc.perm tc.mode
  | .twalk => ¬ Takes conn tc f
  | _ => True

/-- Requests whose failure loses nothing: an open does not get to its file, a create does not make
one, a walk does not take the last reference of the fid that has the number asked for, and the
request's own reference is not the last one of its fid. -/
def Harmless (ops : Fileops State User Group) (conn : Spconn (Files State User Group) User Spfilefid) :
    ConnEvent → Prop
  | .message tc pkt => ∀ f, spFidFind conn tc.fid = some f → f.refcount ≠ 0 ∧ Spares ops conn tc pkt f
  | .answer ref _ =>
      ∀ req f, conn.reqAt ref = some req → f ∈ conn.fids → req.fid = some f.ref → f.refcount ≠ 1

omit [DecidableEq User] in
theorem unknown_kept (answered : answerOutcome srv (conn.accept tc) conn.nextRef .failed = some next) :
    Kept conn next := by
  have fids : next.fids = conn.fids := by
    have responded : spRespond srv (conn.accept tc) conn.nextRef (some { type := .rerror }) = some next := answered
    obtain ⟨r, chain, noted, dropped, found, -, note, drop, rfl⟩ := spRespond_cases responded
    have head : (conn.accept tc).reqAt conn.nextRef = some { ref := conn.nextRef, tag := tc.tag, tcall := tc } := by
      simp [Spconn.reqAt, Spconn.accept]
    rw [head] at found
    obtain rfl := Option.some.inj found
    have plain : some _ = some noted := note
    obtain rfl := Option.some.inj plain
    obtain rfl := Option.some.inj drop
    rfl
  intro f member
  exact ⟨f, fids ▸ member, .refl f⟩

omit [DecidableEq User] in
theorem withFid_none {req fid : Nat} {outcome : Outcome} {start : Spconn (Files State User Group) User Spfilefid}
    {body : Spconn (Files State User Group) User Spfilefid → Spfid User Spfilefid →
      Option (Spconn (Files State User Group) User Spfilefid × Outcome)} (unknown : spFidFind start fid = none)
    (ran : withFid start req fid body = some (now, outcome)) : now = start ∧ outcome = .failed := by
  rw [withFid, unknown] at ran
  obtain ⟨rfl, rfl⟩ := Prod.mk.inj (Option.some.inj ran)
  exact ⟨rfl, rfl⟩

theorem message_unknown {outcome : Outcome} (kind : tc.type ∈ concerned)
    (unknown : spFidFind (conn.accept tc) tc.fid = none)
    (handled : spFcalls srv (conn.accept tc) conn.nextRef tc pkt ((tc.type.number - 100) / 2) =
      some (some (now, outcome))) : now = conn.accept tc ∧ outcome = .failed := by
  simp only [concerned, List.mem_cons, List.not_mem_nil, or_false] at kind
  rcases kind with kind | kind | kind | kind | kind | kind | kind <;> rw [kind] at handled <;>
    exact withFid_none unknown (Option.some.inj handled)

/-- What the handlers have left of the fid of a request, but for walks. -/
theorem message_ends (is : srv = spfileInitSrv ops msize finduser flush) {f : Spfid User Spfilefid}
    {outcome : Outcome} (member : f ∈ conn.fids) (found : spFidFind (conn.accept tc) tc.fid = some f)
    (kind : tc.type ∈ concerned) (other : tc.type ≠ .twalk) (byte : tc.mode < 256)
    (handled : spFcalls srv (conn.accept tc) conn.nextRef tc pkt ((tc.type.number - 100) / 2) =
      some (some (now, outcome))) : Ends conn tc f (Spares ops conn tc pkt f) now := by
  simp only [concerned, List.mem_cons, List.not_mem_nil, or_false] at kind
  rcases kind with kind | kind | kind | kind | kind | kind | kind
  · rw [kind] at handled
    rw [Spares, kind]
    exact spOpen_ends is member found byte (Option.some.inj handled)
  · rw [kind] at handled
    rw [Spares, kind]
    exact spCreate_ends is member found byte (Option.some.inj handled)
  · exact (other kind).elim
  · rw [kind] at handled
    rw [Spares, kind]
    exact spStat_ends is member found (Option.some.inj handled)
  · rw [kind] at handled
    rw [Spares, kind]
    exact spWstat_ends is member found (Option.some.inj handled)
  · rw [kind] at handled
    rw [Spares, kind]
    exact spRead_ends is member found (Option.some.inj handled)
  · rw [kind] at handled
    rw [Spares, kind]
    exact spWrite_ends is member found (Option.some.inj handled)

theorem message_kept_iff (is : srv = spfileInitSrv ops msize finduser flush) (start : Safe False conn)
    (kind : tc.type ∈ concerned) (byte : tc.mode < 256) (stepped : conn.step srv (.message tc pkt) = some next)
    (failed : Failed conn next) : Kept conn next ↔ Harmless ops conn (.message tc pkt) := by
  obtain ⟨now, outcome, handled, answered⟩ := spSrvProcessFcall_cases stepped
  have safe : Safe False now := spFcalls_leaves is start (fun false => false.elim) handled now outcome rfl
  cases found : spFidFind (conn.accept tc) tc.fid with
  | none =>
      obtain ⟨rfl, rfl⟩ := message_unknown kind found handled
      refine iff_of_true (unknown_kept answered) ?_
      intro f known
      have clash : none = some f := found.symm.trans known
      cases clash
  | some f =>
      have member : f ∈ conn.fids := (find?_key found).1
      have harmless : Harmless ops conn (.message tc pkt) ↔ f.refcount ≠ 0 ∧ Spares ops conn tc pkt f := by
        constructor
        · exact fun all => all f found
        · intro fine g known
          obtain rfl : f = g := Option.some.inj (found.symm.trans known)
          exact fine
      rw [harmless]
      by_cases walks : tc.type = .twalk
      · rw [walks] at handled
        rw [Spares, walks]
        exact spWalk_kept_iff is member found start (Option.some.inj handled) answered failed
      · obtain ⟨g, touched, same⟩ := message_ends is member found kind walks byte handled
        rw [touched.failed_iff start member safe answered failed, same]

theorem answer_kept_iff {ref : Nat} {rc : Rcall} (start : Safe False conn)
    (stepped : conn.step srv (.answer ref rc) = some next) (failed : FailedAt conn next (.answer ref rc)) :
    Kept conn next ↔ Harmless ops conn (.answer ref rc) := by
  obtain ⟨rerror, req, waiting, held, -⟩ := failed
  obtain ⟨fid, held⟩ := Option.ne_none_iff_exists'.mp held
  have responded : spRespond srv conn ref (some rc) = some next := by
    rw [Spconn.step, waiting] at stepped
    dsimp only at stepped
    rw [if_neg (by rw [held]; simp)] at stepped
    exact stepped
  obtain ⟨mid, dropped, fids, kept, drop, final⟩ := spRespond_dropped start waiting held rerror responded
  obtain ⟨g, rfl, loses⟩ := spFidDecref_dropped kept drop
  have same : Kept conn next ↔ Kept mid dropped := by
    rw [Kept, Kept, fids, final]
  rw [same, loses.kept_iff kept]
  constructor
  · intro more req' f waiting' member held'
    rw [waiting] at waiting'
    obtain rfl := Option.some.inj waiting'
    rw [held] at held'
    rw [List.inj_on_of_nodup_map start.refs member (fids ▸ loses.inside) (Option.some.inj held').symm]
    exact more
  · exact fun all => all req g waiting (fids ▸ loses.inside) held

/-- In every state of a connection, a request that fails leaves every fid as it was exactly under
that condition. -/
theorem failed_kept_iff (ops : Fileops State User Group) (msize : Nat)
    (finduser : State → Spfcall → Packet → Option User) (flush : State → Spreq → State × Bool)
    {tree : Files State User Group} {events : List ConnEvent}
    (ran : run (Spconn.step (spfileInitSrv ops msize finduser flush))
      (spConnCreate (spfileInitSrv ops msize finduser flush) tree) events = some conn) {event : ConnEvent}
    (stepped : conn.step (spfileInitSrv ops msize finduser flush) event = some next)
    (failed : FailedAt conn next event) : Kept conn next ↔ Harmless ops conn event := by
  have safe : Safe False conn := run_invariant _
    (fun conn event next safe _ stepped => safe.step rfl (fun false => false.elim) stepped)
    (safe_start False _ fun false => false.elim) (guarded_true _ _ events) ran
  cases event with
  | message tc pkt => exact message_kept_iff rfl safe failed.1 failed.2.1 stepped failed.2.2
  | answer ref rc => exact answer_kept_iff safe stepped failed

/-- A read of a fid that is not open. -/
theorem failed_kept_iff_read :
    ∃ conn next,
      run (Spconn.step readWriteSrv) (spConnCreate readWriteSrv readable) [version, attach 1] = some conn ∧
      conn.step readWriteSrv (read 1 8) = some next ∧ (Kept conn next ↔ Harmless readWrite conn (read 1 8)) :=
  ⟨_, _, rfl, rfl, failed_kept_iff readWrite 8192 (fun _ _ _ => some ()) (fun _ _ => ((), true))
    (show run (Spconn.step readWriteSrv) (spConnCreate readWriteSrv readable) [version, attach 1] = some _ from rfl)
    rfl ⟨by decide, by decide, [], rfl⟩⟩

/-- An open for writing that is refused leaves the fid open. -/
theorem refused_open_kept :
    ∃ conn next,
      run (Spconn.step readWriteSrv) (spConnCreate readWriteSrv readable) [version, attach 1] = some conn ∧
      conn.step readWriteSrv (openfid 1 Owrite) = some next ∧ FailedAt conn next (openfid 1 Owrite) ∧
        ¬ Kept conn next := by
  refine ⟨_, _, rfl, rfl, ⟨by decide, by decide, [], rfl⟩, ?_⟩
  intro kept
  obtain ⟨g, member, same⟩ := kept _ List.mem_cons_self
  obtain rfl := List.mem_singleton.mp member
  cases same.omode

end Steps

end Xcpu.Libspfs.File
