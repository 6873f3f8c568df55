import Xcpu.Libspfs.Srv

/-!
The request handlers of libspfs (`fcall.c`).
In the source `!fid->type&Qtdir` and its like are a negation that is 0 or 1, masked to 0,
so the checks written with them never fail a request and do not appear here.
-/

namespace Xcpu.Libspfs

def Oread : Nat := 0
def Owrite : Nat := 1
def Ordwr : Nat := 2
def Oexec : Nat := 3
def Otrunc : Nat := 0x10
def Orclose : Nat := 0x40
def Oexcl : Nat := 0x04

def Dmdir : Nat := 0x80000000
-- Dmnamedpipe | Dmsymlink | Dmlink | Dmdevice | Dmsocket
def dmspecial : Nat := 0x00200000 ||| 0x02000000 ||| 0x01000000 ||| 0x00800000 ||| 0x00100000

def iohdrsz : Nat := 24

section Handlers

variable {Tree User Aux : Type} (srv : Spsrv Tree User Aux)

/-- What a callback leaves behind. -/
def Spconn.called {Value : Type} (conn : Spconn Tree User Aux) (ref : Nat)
    (back : Back Tree Aux Value) : Spconn Tree User Aux :=
  { conn with tree := back.tree }.setFid ref fun f => { f with aux := back.aux }

/-- `sp_fid_incref(fid); req->fid = fid;` -/
def Spconn.bindFid (conn : Spconn Tree User Aux) (req ref : Nat) : Spconn Tree User Aux :=
  (spFidIncref conn ref).setReq req fun r => { r with fid := some ref }

/-- How most handlers begin: the fid is found and bound to the request, or is unknown. -/
def withFid (conn : Spconn Tree User Aux) (req fid : Nat)
    (body : Spconn Tree User Aux → Spfid User Aux → Option (Spconn Tree User Aux × Outcome)) :
    Option (Spconn Tree User Aux × Outcome) :=
  match spFidFind conn fid with
  | none => some (conn, .failed)
  | some f => body (conn.bindFid req f.ref) f

/-- The request comes back to its connection once the callback for it has answered. -/
def calling (conn : Spconn Tree User Aux) (ref : Nat) (back : Back Tree Aux Rcall) :
    Option (Spconn Tree User Aux × Outcome) :=
  some (conn.called ref back, back.outcome)

/-- Whether the version asked for is 9P2000.u; `none` is an unsupported one. -/
def spVersionDotu (srvDotu : Bool) (version : List UInt8) : Option Bool :=
  if version = [57, 80, 50, 48, 48, 48, 46, 117] ∧ srvDotu then some true
  else if version.take 6 = [57, 80, 50, 48, 48, 48] then some false
  else none

/-- `xflush` answers for a request with a fid, when the file gives the request up. -/
def xflush (conn : Spconn Tree User Aux) (creq : Spreq) : Option (Bool × Spconn Tree User Aux) :=
  match creq.fid with
  | none => some (false, conn)
  | some _ =>
      let (tree, gives) := srv.flush conn.tree creq
      if gives then (spRespond srv { conn with tree := tree } creq.ref none).map (true, ·)
      else some (false, { conn with tree := tree })

/-- The loop of `sp_conn_reset` over the working requests: one that is not given up is tried
again for ever. -/
@[simp]
def flushWorkreqs (conn : Spconn Tree User Aux) : Nat → Option (Spconn Tree User Aux)
  | 0 => none
  | steps + 1 =>
      match conn.workreqs.find? (·.tcall.type ≠ .tversion) with
      | none => some conn
      | some req => (xflush srv conn req).bind fun (flushed, conn) =>
          if flushed then flushWorkreqs conn steps else none

def spConnReset (conn : Spconn Tree User Aux) (msize : Nat) (dotu : Bool) :
    Option (Spconn Tree User Aux) :=
  (flushWorkreqs srv conn (conn.workreqs.length + 1)).map fun conn =>
    { conn with
      pool := true
      fids := []
      tree := conn.fids.foldl srv.fiddestroy conn.tree
      msize := msize
      dotu := dotu }

/-- In the two cases that set an error `sp_default_version` returns a variable it has not
assigned, which its caller frees. -/
def spDefaultVersion (conn : Spconn Tree User Aux) (msize : Nat) (version : List UInt8) :
    Option (Spconn Tree User Aux × Outcome) :=
  match spVersionDotu srv.dotu version with
  | none => none
  | some dotu =>
      if min msize srv.msize < iohdrsz then none
      else (spConnReset srv conn (min msize srv.msize) dotu).map fun conn => (conn, .replied .rversion)

def spVersion (conn : Spconn Tree User Aux) (_req : Nat) (tc : Spfcall) (pkt : Packet) :
    Option (Spconn Tree User Aux × Outcome) :=
  if tc.msize < iohdrsz + 1 then some (conn, .failed)
  else spDefaultVersion srv conn tc.msize (tc.version.bytes pkt)

def spAuthUser (conn : Spconn Tree User Aux) (afid : Nat) (tc : Spfcall) (pkt : Packet) :
    Spconn Tree User Aux × Outcome :=
  match srv.finduser conn.tree tc pkt with
  | none => (conn, .failed)
  | some user =>
      let conn := conn.setFid afid fun f => { f with user := some user, type := qtauth }
      match conn.fidAt afid with
      | none => (conn, .failed)
      | some f =>
          if srv.auth then
            let back := srv.startauth conn.tree f (tc.aname.bytes pkt)
            (conn.called afid back,
              if back.value.isSome then ⟨some { type := .rauth }, back.error⟩ else .failed)
          else (conn, .failed)

/-- A failure drops a reference to `afid`, also when it is another request's auth fid. -/
def spAuth (conn : Spconn Tree User Aux) (_req : Nat) (tc : Spfcall) (pkt : Packet) :
    Option (Spconn Tree User Aux × Outcome) :=
  match spFidFind conn tc.afid with
  | some f => (spFidDecref srv conn f.ref).map (·, .failed)
  | none =>
      match spFidCreate conn tc.afid with
      | (none, conn) => some (conn, ⟨none, false⟩)
      | (some afid, conn) =>
          let (conn, outcome) := spAuthUser srv (spFidIncref conn afid) afid tc pkt
          if outcome.rc = none then (spFidDecref srv conn afid).map (·, outcome)
          else some (conn, outcome)

/-- `spfile_attach` and its like take a reference for the table when they succeed. -/
def spAttachUser (conn : Spconn Tree User Aux) (ref : Nat) (afid : Option Nat) (tc : Spfcall)
    (pkt : Packet) : Spconn Tree User Aux × Outcome :=
  match srv.finduser conn.tree tc pkt with
  | none => (conn, .failed)
  | some user =>
      let conn := conn.setFid ref fun f => { f with user := some user }
      match conn.fidAt ref with
      | none => (conn, .failed)
      | some f =>
          let checked := srv.checkauth conn.tree f (afid.bind conn.fidAt) (tc.aname.bytes pkt)
          if srv.auth ∧ checked.value = none then
            ({ conn with tree := checked.tree }, ⟨none, checked.error⟩)
          else
            let tree := if srv.auth then checked.tree else conn.tree
            let back := srv.attach tree f (afid.bind conn.fidAt) tc pkt
            let conn := conn.called ref back
            (if back.value.isSome then spFidIncref conn ref else conn, back.outcome)

def spAttach (conn : Spconn Tree User Aux) (req : Nat) (tc : Spfcall) (pkt : Packet) :
    Option (Spconn Tree User Aux × Outcome) :=
  match spFidFind conn tc.fid with
  | some _ => some (conn, .failed)
  | none =>
      match spFidCreate conn tc.fid with
      | (none, conn) => some (conn, ⟨none, false⟩)
      | (some ref, conn) =>
          let conn := conn.bindFid req ref
          match spFidFind conn tc.afid with
          | none =>
              if tc.afid ≠ nofid then some (conn, .failed)
              else some (spAttachUser srv conn ref none tc pkt)
          | some a =>
              let (conn, outcome) := spAttachUser srv (spFidIncref conn a.ref) ref (some a.ref) tc pkt
              (spFidDecref srv conn a.ref).map (·, outcome)

/-- The request that is flushed may be this one, which is the newest of the working requests. -/
def spFlush (conn : Spconn Tree User Aux) (req : Nat) (tc : Spfcall) :
    Option (Spconn Tree User Aux × Outcome) :=
  match conn.workreqs.find? (·.tag == tc.oldtag) with
  | none => some (conn, .replied .rflush)
  | some creq =>
      (if creq.flushreq = none then xflush srv conn creq else some (false, conn)).bind
        fun (flushed, conn) =>
          if flushed then some (conn, .replied .rflush)
          else some ((conn.setReq req fun r => { r with flushreq := creq.flushreq }).setReq creq.ref
            fun r => { r with flushreq := some req }, ⟨none, false⟩)

/-- The walk itself, from the second name on: how many names were walked. -/
@[simp]
def walkNames (conn : Spconn Tree User Aux) (ref : Nat) (pkt : Packet) :
    List Spstr → Nat × Spconn Tree User Aux × Bool
  | [] => (0, conn, false)
  | name :: names =>
      match conn.fidAt ref with
      | none => (0, conn, false)
      | some f =>
          let back := srv.walk conn.tree f (name.bytes pkt)
          let conn := conn.called ref back
          match back.value with
          | none => (0, conn, back.error)
          | some qid =>
              let (walked, conn, error) :=
                walkNames (conn.setFid ref fun f => { f with type := qid.type }) ref pkt names
              (walked + 1, conn, error)

/-- A walk that starts on `newfid`: it fails if not even the first name is found. -/
def spWalkOn (conn : Spconn Tree User Aux) (newfid : Nat) (cloned : Bool) (tc : Spfcall)
    (pkt : Packet) : Option (Spconn Tree User Aux × Outcome) :=
  let (walked, conn, error) := walkNames srv (spFidIncref conn newfid) newfid pkt
    (tc.wnames.take tc.nwname)
  if walked = 0 ∧ tc.nwname ≠ 0 then (spFidDecref srv conn newfid).map (·, ⟨none, error⟩)
  else (spFidDecref srv (if cloned then spFidIncref conn newfid else conn) newfid).map
    (·, .replied .rwalk)

def spWalk (conn : Spconn Tree User Aux) (req : Nat) (tc : Spfcall) (pkt : Packet) :
    Option (Spconn Tree User Aux × Outcome) :=
  withFid conn req tc.fid fun conn f =>
    if f.omode ≠ omodeNone then some (conn, .failed)
    else if tc.nwname > maxwelem then some (conn, .failed)
    else if tc.fid = tc.newfid then spWalkOn srv conn f.ref false tc pkt
    else
      match spFidFind conn tc.newfid with
      | some used => (spFidDecref srv conn used.ref).map (·, .failed)
      | none =>
          match spFidCreate conn tc.newfid with
          | (none, conn) => some (conn, ⟨none, false⟩)
          | (some newfid, conn) =>
              let back := srv.clone conn.tree f { ref := newfid, fid := tc.newfid }
              let conn := conn.called newfid back
              if back.value = none then (spFidDecref srv conn newfid).map (·, ⟨none, back.error⟩)
              else spWalkOn srv
                (conn.setFid newfid fun g => { g with user := f.user, type := f.type })
                newfid true tc pkt

/-- The mode is set whatever the callback answers. -/
def spOpen (conn : Spconn Tree User Aux) (req : Nat) (tc : Spfcall) :
    Option (Spconn Tree User Aux × Outcome) :=
  withFid conn req tc.fid fun conn f =>
    if f.omode ≠ omodeNone then some (conn, .failed)
    else if f.type &&& qtdir ≠ 0 ∧ tc.mode ≠ Oread then some (conn, .failed)
    else
      let back := srv.open conn.tree f tc.mode
      some ((conn.called f.ref back).setFid f.ref (fun f => { f with omode := tc.mode }),
        back.outcome)

def Spconn.created (conn : Spconn Tree User Aux) (ref mode : Nat) (rc : Option Rcall) :
    Spconn Tree User Aux :=
  match rc with
  | some ⟨.rcreate, qidType, _⟩ => conn.setFid ref fun f => { f with omode := mode, type := qidType }
  | _ => conn

def spCreate (conn : Spconn Tree User Aux) (req : Nat) (tc : Spfcall) (pkt : Packet) :
    Option (Spconn Tree User Aux × Outcome) :=
  withFid conn req tc.fid fun conn f =>
    if f.omode ≠ omodeNone then some (conn, .failed)
    else if tc.perm &&& Dmdir ≠ 0 ∧ tc.mode ≠ Oread then some (conn, .failed)
    else if tc.perm &&& dmspecial ≠ 0 ∧ ¬ conn.dotu then some (conn, .failed)
    else
      let back := srv.create conn.tree f tc pkt
      some ((conn.called f.ref back).created f.ref tc.mode back.value, back.outcome)

/-- The callback of a read or write gets the request, to answer it later. -/
def withReq (conn : Spconn Tree User Aux) (req : Nat)
    (body : Spreq → Option (Spconn Tree User Aux × Outcome)) :
    Option (Spconn Tree User Aux × Outcome) :=
  (conn.reqAt req).bind body

/-- `buf_get_int32` values added as `u32`. -/
def tooLarge (count msize : Nat) : Prop := (count + iohdrsz) % 4294967296 > msize

instance (count msize : Nat) : Decidable (tooLarge count msize) := Nat.decLt ..

def spRead (conn : Spconn Tree User Aux) (req : Nat) (tc : Spfcall) :
    Option (Spconn Tree User Aux × Outcome) :=
  withFid conn req tc.fid fun conn f =>
    if tooLarge tc.count conn.msize then some (conn, .failed)
    else if f.type &&& qtauth ≠ 0 then
      if srv.auth then
        let back := srv.authread conn.tree f tc
        some (conn.called f.ref back, ⟨back.value.map fun count => { type := .rread, count }, back.error⟩)
      else some (conn, .failed)
    else if f.omode = omodeNone ∨ f.omode &&& 3 = Owrite then some (conn, .failed)
    else if f.type &&& qtdir ≠ 0 ∧ tc.offset ≠ f.diroffset then some (conn, .failed)
    else withReq conn req fun r => calling conn f.ref (srv.read conn.tree f tc r)

def spWrite (conn : Spconn Tree User Aux) (req : Nat) (tc : Spfcall) (pkt : Packet) :
    Option (Spconn Tree User Aux × Outcome) :=
  withFid conn req tc.fid fun conn f =>
    if f.type &&& qtauth ≠ 0 then
      if srv.auth then
        let back := srv.authwrite conn.tree f tc pkt
        some (conn.called f.ref back, ⟨back.value.map fun _ => { type := .rwrite }, back.error⟩)
      else some (conn, .failed)
    else if f.omode = omodeNone ∨ f.type &&& qtdir ≠ 0 ∨ f.omode &&& 3 = Oread then
      some (conn, .failed)
    else if tooLarge tc.count conn.msize then some (conn, .failed)
    else withReq conn req fun r => calling conn f.ref (srv.write conn.tree f tc pkt r)

/-- A clunk of an auth fid is answered and leaves the fid in the table. -/
def spClunk (conn : Spconn Tree User Aux) (req : Nat) (tc : Spfcall) :
    Option (Spconn Tree User Aux × Outcome) :=
  withFid conn req tc.fid fun conn f =>
    if f.type &&& qtauth ≠ 0 then
      if srv.auth then
        let back := srv.authclunk conn.tree f
        some (conn.called f.ref back, ⟨back.value.map fun _ => { type := .rclunk }, back.error⟩)
      else some (conn, .failed)
    else if f.omode = Orclose then
      let back := srv.remove conn.tree f
      match back.value with
      -- `rc->type` of NULL
      | none => none
      | some rc =>
          if rc.type = .rerror then some (conn.called f.ref back, back.outcome)
          else (spFidDecref srv (conn.called f.ref back) f.ref).map
            (·, ⟨some { type := .rclunk }, back.error⟩)
    else
      let back := srv.clunk conn.tree f
      if (back.value.map (·.type)) = some .rclunk then
        (spFidDecref srv (conn.called f.ref back) f.ref).map (·, back.outcome)
      else calling conn f.ref back

def spRemove (conn : Spconn Tree User Aux) (req : Nat) (tc : Spfcall) :
    Option (Spconn Tree User Aux × Outcome) :=
  withFid conn req tc.fid fun conn f =>
    let back := srv.remove conn.tree f
    if (back.value.map (·.type)) = some .rremove then
      (spFidDecref srv (conn.called f.ref back) f.ref).map (·, back.outcome)
    else calling conn f.ref back

def spStat (conn : Spconn Tree User Aux) (req : Nat) (tc : Spfcall) :
    Option (Spconn Tree User Aux × Outcome) :=
  withFid conn req tc.fid fun conn f => calling conn f.ref (srv.stat conn.tree f)

def spWstat (conn : Spconn Tree User Aux) (req : Nat) (tc : Spfcall) (pkt : Packet) :
    Option (Spconn Tree User Aux × Outcome) :=
  withFid conn req tc.fid fun conn f =>
    if tc.stat.type ≠ 2 ^ 16 - 1 ∨ tc.stat.dev ≠ 2 ^ 32 - 1 ∨ tc.stat.qid.version ≠ 2 ^ 32 - 1 ∨
        tc.stat.qid.path ≠ 2 ^ 64 - 1 then some (conn, .failed)
    else calling conn f.ref (srv.wstat conn.tree f tc.stat pkt)

end Handlers

end Xcpu.Libspfs
