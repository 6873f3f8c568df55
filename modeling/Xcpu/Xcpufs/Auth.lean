import Mathlib.Algebra.Order.Ring.Int
import Mathlib.Data.List.Nodup
import Xcpu.Lib.Overwrite
import Xcpu.Lib.Transition

/-!
Authentication in xcpufs: `xauth_startauth`, `xauth_write`, `xauth_checkauth` and
`pkey_gen`, reached through the Tauth, Twrite, Tattach and Tclunk handlers of libspfs.
The signature and hash functions are parameters. `none` is a step that leaves defined
behaviour: a write before `response`, or an ordinary fid read as an auth fid.
-/

namespace Xcpu.Xcpufs.Auth

open Xcpu.Overwrite Xcpu.Transition

abbrev Bytes := List UInt8

def cstr (mem : Bytes) : Bytes := mem.takeWhile (· != 0)

inductive UserKey (Key : Type) where
  | absent
  -- `~0`
  | never
  | pubkey (key : Key)

structure Crypto (User Key : Type) where
  ukey : User → UserKey Key
  adminkey : Key
  xauthVerify : Bytes → Bytes → Key → Bool
  xauthHash : Bytes → Option Bytes

structure Passkey (User : Type) where
  user : User
  passkey : Bytes
  deriving DecidableEq

def responseSize : Nat := 4096

structure Xauth (User : Type) where
  authid : Bytes
  user : User
  response : Bytes
  resplen : Nat

inductive Aux (User : Type) where
  | auth (auth : Option (Xauth User))
  | file

structure Spfid (User : Type) where
  fid : UInt32
  user : User
  aux : Aux User

structure State (User : Type) where
  fids : List (Spfid User) := []
  passkeys : List (Passkey User) := []

section Functions

variable {User Key : Type} [DecidableEq User] (crypto : Crypto User Key)

def State.find (state : State User) (fid : UInt32) : Option (Spfid User) :=
  state.fids.find? (·.fid = fid)

def State.drop (state : State User) (fid : UInt32) : State User :=
  { state with fids := state.fids.filter (·.fid ≠ fid) }

def State.setAux (state : State User) (fid : UInt32) (aux : Aux User) : State User :=
  { state with fids := state.fids.map fun f => if f.fid = fid then { f with aux := aux } else f }

def hexDigit (n : Nat) : UInt8 := UInt8.ofNat (if n < 10 then 48 + n else 87 + n)

/-- `"%02x"` of a `char`: a negative one is printed as the eight digits of the `int`. -/
def hexChar (b : UInt8) : Bytes :=
  let digits := [hexDigit (b.toNat / 16), hexDigit (b.toNat % 16)]
  if b.toNat < 128 then digits else List.replicate 6 102 ++ digits

-- `p->passkey` after the loop of `pkey_gen`: each `sprintf` overwrites the end of the last.
def passkeyBuf (random : Fin 16 → UInt8) : Bytes :=
  (List.finRange 16).foldl (fun mem i => overwrite mem (i.val * 2) (hexChar (random i) ++ [0]))
    (List.replicate 64 0)

def pkeyGen (state : State User) (user : User) (random : Fin 16 → UInt8) : State User :=
  { state with passkeys := ⟨user, cstr (passkeyBuf random)⟩ :: state.passkeys }

def xauthStartauth (user : User) (random : Fin 16 → UInt8) : Xauth User :=
  ⟨List.ofFn random, user, List.replicate responseSize 0, 0⟩

-- The buffer that is hashed for a passkey, up to its `strlen`.
def hashInput (auth : Xauth User) (p : Passkey User) : Bytes :=
  cstr (auth.authid ++ p.passkey ++ [0])

def skipped (auth : Xauth User) (hash : Bytes) : Bool :=
  hash.length != auth.resplen && hash == auth.response.take hash.length

inductive Scan (User : Type) where
  | failed
  | accepted (passkeys : List (Passkey User))
  | exhausted

def Scan.keep (p : Passkey User) : Scan User → Scan User
  | .accepted passkeys => .accepted (p :: passkeys)
  | other => other

def scanPasskeys (auth : Xauth User) : List (Passkey User) → Scan User
  | [] => .exhausted
  | p :: rest =>
      if p.user = auth.user then
        match crypto.xauthHash (hashInput auth p) with
        | none => .failed
        | some hash =>
            if skipped auth hash then (scanPasskeys auth rest).keep p else .accepted rest
      else (scanPasskeys auth rest).keep p

def signed (auth : Xauth User) (key : Key) : Bool :=
  crypto.xauthVerify auth.authid (auth.response.take auth.resplen) key

/-- Whether the user is accepted, and `passkeys` afterwards. -/
def xauthCheckauth (passkeys : List (Passkey User)) (user : User) (afid : Option (Spfid User)) :
    Option (Bool × List (Passkey User)) :=
  match afid with
  | none => some (false, passkeys)
  | some afid =>
      match afid.aux with
      | .auth none => some (false, passkeys)
      | .file => if user ≠ afid.user then some (false, passkeys) else none
      | .auth (some auth) =>
          if user ≠ afid.user then some (false, passkeys)
          else
            match crypto.ukey auth.user with
            | .absent => some (true, passkeys)
            | .never => some (false, passkeys)
            | .pubkey ukey =>
                if signed crypto auth ukey then some (true, passkeys)
                else
                  match scanPasskeys crypto auth passkeys with
                  | .failed => some (false, passkeys)
                  | .accepted rest => some (true, rest)
                  | .exhausted => some (signed crypto auth crypto.adminkey, passkeys)

def xauthWrite (auth : Xauth User) (offset : UInt64) (data : Bytes) : Option (Xauth User) :=
  let stop := (offset + UInt64.ofNat data.length).toNat
  if stop > responseSize then some auth
  else if data = [] then some auth
  else if offset.toNat + data.length ≤ responseSize then
    some { auth with
      response := overwrite auth.response offset.toNat data
      resplen := if stop > auth.resplen then stop else auth.resplen }
  else none

def spAuth (state : State User) (afid : UInt32) (user : Option User) (random : Fin 16 → UInt8) :
    State User :=
  match state.find afid with
  -- the error path drops the reference of the fid that was found
  | some _ => state.drop afid
  | none =>
      match user with
      | none => state
      | some user =>
          { state with fids := ⟨afid, user, .auth (some (xauthStartauth user random))⟩ :: state.fids }

def spAttach (state : State User) (fid afid : UInt32) (user : Option User) (attached : Bool) :
    Option (State User) :=
  match state.find fid with
  | some _ => some state
  | none =>
      match state.find afid, user with
      -- an unknown afid, or NOFID, for which `xauth_checkauth` is called without an afid
      | none, _ => some state
      | some _, none => some state
      | some found, some user => do
          let (accepted, passkeys) ← xauthCheckauth crypto state.passkeys user (some found)
          let state := { state with passkeys := passkeys }
          if accepted && attached then some { state with fids := ⟨fid, user, .file⟩ :: state.fids }
          else some state

def spWrite (state : State User) (fid : UInt32) (offset : UInt64) (data : Bytes) :
    Option (State User) :=
  match state.find fid with
  | none => some state
  | some found =>
      match found.aux with
      | .auth (some auth) => do
          let auth ← xauthWrite auth offset data
          some (state.setAux fid (.auth (some auth)))
      | _ => some state

/-- The clunk of an auth fid frees its `Xauth` but leaves the fid in the table. -/
def spClunk (state : State User) (fid : UInt32) : State User :=
  match state.find fid with
  | none => state
  | some found =>
      match found.aux with
      | .auth _ => state.setAux fid (.auth none)
      | .file => state.drop fid

inductive Event (User : Type) where
  | auth (afid : UInt32) (user : Option User) (random : Fin 16 → UInt8)
  | write (fid : UInt32) (offset : UInt64) (data : Bytes)
  | pkeyGen (user : User) (random : Fin 16 → UInt8)
  | attach (fid afid : UInt32) (user : Option User) (attached : Bool)
  | clunk (fid : UInt32)

def step (state : State User) : Event User → Option (State User)
  | .auth afid user random => some (spAuth state afid user random)
  | .write fid offset data => spWrite state fid offset data
  | .pkeyGen user random => some (pkeyGen state user random)
  | .attach fid afid user attached => spAttach crypto state fid afid user attached
  | .clunk fid => some (spClunk state fid)

def skips (auth : Xauth User) (p : Passkey User) : Bool :=
  match crypto.xauthHash (hashInput auth p) with
  | none => false
  | some hash => skipped auth hash

/-- The newest passkey of the user that the loop of `xauth_checkauth` does not pass over. -/
def firstTried (auth : Xauth User) (passkeys : List (Passkey User)) : Option (Passkey User) :=
  passkeys.find? fun p => p.user = auth.user && !skips crypto auth p

/-- The response is the hash of the authid followed by the passkey. -/
def Answers (auth : Xauth User) (p : Passkey User) : Prop :=
  crypto.xauthHash (auth.authid ++ p.passkey) = some (auth.response.take auth.resplen)

structure Sound (auth : Xauth User) (key : Key) (user : User) (passkeys : List (Passkey User))
    (result : Option (Bool × List (Passkey User))) : Prop where
  accepts : ∀ rest, result = some (true, rest) →
    signed crypto auth key ∨ signed crypto auth crypto.adminkey ∨
      ∃ front p back, passkeys = front ++ p :: back ∧ p.user = user ∧ Answers crypto auth p ∧
        rest = front ++ back
  refuses : ∀ rest, result = some (false, rest) → rest = passkeys
  others : ¬ signed crypto auth key → ¬ signed crypto auth crypto.adminkey →
    (∀ p ∈ passkeys, p.user = user → ¬ Answers crypto auth p) → result = some (false, passkeys)

def FirstTriedAnswers (auth : Xauth User) (key : Key) (passkeys : List (Passkey User)) : Prop :=
  signed crypto auth key ∨ signed crypto auth crypto.adminkey ∨
    ∀ p, firstTried crypto auth passkeys = some p →
      crypto.xauthHash (hashInput auth p) = none ∨ Answers crypto auth p

-- No accepted write reaches before `response`, and no ordinary fid is read as an auth fid.
def InBounds (state : State User) : Event User → Prop
  | .write fid offset data => ∀ found auth, state.find fid = some found →
      found.aux = .auth (some auth) →
      (offset + UInt64.ofNat data.length).toNat ≤ responseSize →
      offset.toNat + data.length < 2 ^ 64
  | .attach fid afid user _ => ∀ found, state.find fid = none → state.find afid = some found →
      user = some found.user → found.aux ≠ .file
  | _ => True

end Functions

section Checks

variable {User Key : Type} [DecidableEq User] {crypto : Crypto User Key}

theorem scanPasskeys_cases (crypto : Crypto User Key) (auth : Xauth User) (passkeys : List (Passkey User)) :
    (firstTried crypto auth passkeys = none ∧ scanPasskeys crypto auth passkeys = .exhausted) ∨
    ∃ front p back, passkeys = front ++ p :: back ∧ firstTried crypto auth passkeys = some p ∧
      p.user = auth.user ∧
      ((crypto.xauthHash (hashInput auth p) = none ∧ scanPasskeys crypto auth passkeys = .failed) ∨
        (crypto.xauthHash (hashInput auth p) ≠ none ∧
          scanPasskeys crypto auth passkeys = .accepted (front ++ back))) := by
  induction passkeys with
  | nil => exact .inl ⟨rfl, rfl⟩
  | cons p rest ih =>
      by_cases tried : p.user = auth.user ∧ skips crypto auth p = false
      · obtain ⟨same, unskipped⟩ := tried
        refine .inr ⟨[], p, rest, rfl, ?_, same, ?_⟩
        · simp [firstTried, same, unskipped]
        · cases hashed : crypto.xauthHash (hashInput auth p) with
          | none => exact .inl ⟨rfl, by simp [scanPasskeys, same, hashed]⟩
          | some hash =>
              simp only [skips, hashed] at unskipped
              exact .inr ⟨by simp, by simp [scanPasskeys, same, hashed, unskipped]⟩
      · have later : firstTried crypto auth (p :: rest) = firstTried crypto auth rest := by
          rw [firstTried, List.find?_cons_of_neg]
          · rfl
          · simpa using tried
        have kept : scanPasskeys crypto auth (p :: rest) =
            (scanPasskeys crypto auth rest).keep p := by
          by_cases same : p.user = auth.user
          · have passed : skips crypto auth p = true := by
              simpa [same] using tried
            simp only [skips] at passed
            split at passed
            · cases passed
            · rename_i hash hashed
              simp [scanPasskeys, same, hashed, passed]
          · simp [scanPasskeys, same]
        rw [later, kept]
        rcases ih with ⟨none, exhausted⟩ | ⟨front, q, back, rfl, first, same, result⟩
        · exact .inl ⟨none, by rw [exhausted]; rfl⟩
        · refine .inr ⟨p :: front, q, back, rfl, first, same, ?_⟩
          rcases result with ⟨unhashed, failed⟩ | ⟨hashed, accepted⟩
          · exact .inl ⟨unhashed, by rw [failed]; rfl⟩
          · exact .inr ⟨hashed, by rw [accepted]; rfl⟩

theorem removed_eq {front front' back back' : List (Passkey User)} {p p' : Passkey User}
    (same : front ++ p :: back = front' ++ p' :: back')
    (left : front ++ back = front' ++ back') : p = p' := by
  have counted := congrArg (List.count p) same
  have rest := congrArg (List.count p) left
  simp only [List.count_append, List.count_cons, beq_self_eq_true, if_true] at counted rest
  by_contra other
  have different : (p' == p) = false := by simpa using fun equal => other equal.symm
  simp only [different, Bool.false_eq_true, if_false] at counted
  omega

omit [DecidableEq User] in
theorem sound_of_cases {auth : Xauth User} {key : Key} {user : User}
    {passkeys : List (Passkey User)} (accepted : Bool) (rest : List (Passkey User))
    (accepts : accepted = true → signed crypto auth key ∨ signed crypto auth crypto.adminkey ∨
      ∃ front p back, passkeys = front ++ p :: back ∧ p.user = user ∧ Answers crypto auth p ∧
        rest = front ++ back)
    (refuses : accepted = false → rest = passkeys) :
    Sound crypto auth key user passkeys (some (accepted, rest)) := by
  refine ⟨?_, ?_, ?_⟩
  · intro left same
    simp only [Option.some.injEq, Prod.mk.injEq] at same
    obtain ⟨rfl, rfl⟩ := same
    exact accepts rfl
  · intro left same
    simp only [Option.some.injEq, Prod.mk.injEq] at same
    obtain ⟨rfl, rfl⟩ := same
    exact refuses rfl
  · intro unsigned unsignedAdmin unanswered
    cases accepted with
    | false => rw [refuses rfl]
    | true =>
        rcases accepts rfl with byUser | byAdmin | ⟨front, p, back, rfl, same, answers, _⟩
        · exact absurd byUser unsigned
        · exact absurd byAdmin unsignedAdmin
        · exact absurd answers (unanswered p (by simp) same)

theorem xauthCheckauth_sound_iff {afid : Spfid User} {auth : Xauth User} {key : Key} {user : User}
    (passkeys : List (Passkey User)) (real : crypto.ukey user = .pubkey key)
    (started : afid.aux = .auth (some auth)) (owner : auth.user = afid.user) :
    Sound crypto auth key user passkeys (xauthCheckauth crypto passkeys user (some afid)) ↔
      (user = afid.user → FirstTriedAnswers crypto auth key passkeys) := by
  by_cases same : user = afid.user
  · subst same
    rw [owner.symm] at real ⊢
    simp only [xauthCheckauth, started, owner, ne_eq, not_true_eq_false, if_false, true_imp_iff]
    rw [← owner, real]
    by_cases byUser : signed crypto auth key = true
    · simp only [byUser, if_true, FirstTriedAnswers, true_or, iff_true]
      exact sound_of_cases true passkeys (fun _ => .inl byUser) (fun no => by cases no)
    · simp only [Bool.not_eq_true] at byUser
      simp only [byUser, Bool.false_eq_true, if_false, FirstTriedAnswers, false_or]
      rcases scanPasskeys_cases crypto auth passkeys with
        ⟨none, exhausted⟩ | ⟨front, p, back, split, first, mine, result⟩
      · simp only [exhausted, none, reduceCtorEq, false_imp_iff, implies_true, or_true, iff_true]
        exact sound_of_cases _ passkeys (fun byAdmin => .inr (.inl byAdmin)) (fun _ => rfl)
      · rcases result with ⟨unhashed, failed⟩ | ⟨hashed, accepted⟩
        · simp only [failed, first, Option.some.injEq, forall_eq', unhashed, true_or, or_true, iff_true]
          exact sound_of_cases false passkeys (fun no => by cases no) (fun _ => rfl)
        · simp only [accepted, first, Option.some.injEq, forall_eq', hashed, false_or]
          constructor
          · intro sound
            rcases sound.accepts _ rfl with byKey | byAdmin | ⟨front', q, back', split', _, answers, left⟩
            · simp [byUser] at byKey
            · exact .inl byAdmin
            · have equal := removed_eq (split.symm.trans split') left
              exact .inr (equal ▸ answers)
          · intro answered
            refine sound_of_cases true _ (fun _ => ?_) (fun no => by cases no)
            rcases answered with byAdmin | answers
            · exact .inr (.inl byAdmin)
            · exact .inr (.inr ⟨front, p, back, split, mine, answers, rfl⟩)
  · simp only [xauthCheckauth, started, ne_eq, same, not_false_eq_true, if_true, false_imp_iff, iff_true]
    exact sound_of_cases false passkeys (fun no => by cases no) (fun _ => rfl)

end Checks

section Runs

variable {User Key : Type} [DecidableEq User]

structure Xauth.Valid (auth : Xauth User) (user : User) : Prop where
  owner : auth.user = user
  authid : auth.authid.length = 16
  response : auth.response.length = responseSize
  resplen : auth.resplen ≤ responseSize

structure State.Valid (state : State User) : Prop where
  unique : (state.fids.map Spfid.fid).Nodup
  auths : ∀ f ∈ state.fids, ∀ auth, f.aux = .auth (some auth) → auth.Valid f.user

omit [DecidableEq User] in
theorem find_some {state : State User} {fid : UInt32} {f : Spfid User}
    (found : state.find fid = some f) : f ∈ state.fids ∧ f.fid = fid := by
  refine ⟨List.mem_of_find?_eq_some found, ?_⟩
  simpa using List.find?_some found

omit [DecidableEq User] in
theorem add_valid {state : State User} (valid : state.Valid) (f : Spfid User)
    (unused : state.find f.fid = none) (auths : ∀ auth, f.aux = .auth (some auth) → auth.Valid f.user) :
    State.Valid { state with fids := f :: state.fids } := by
  constructor
  · rw [List.map_cons, List.nodup_cons]
    refine ⟨?_, valid.unique⟩
    intro member
    obtain ⟨old, inside, same⟩ := List.mem_map.mp member
    have other := List.find?_eq_none.mp unused old inside
    simp [same] at other
  · intro g member auth started
    rcases List.mem_cons.mp member with rfl | old
    · exact auths auth started
    · exact valid.auths g old auth started

omit [DecidableEq User] in
theorem drop_valid {state : State User} (valid : state.Valid) (fid : UInt32) :
    (state.drop fid).Valid := by
  constructor
  · exact valid.unique.sublist (List.filter_sublist.map _)
  · intro f member
    exact valid.auths f (List.mem_of_mem_filter member)

omit [DecidableEq User] in
theorem setAux_valid {state : State User} (valid : state.Valid) {f : Spfid User}
    (member : f ∈ state.fids) (aux : Aux User)
    (auths : ∀ auth, aux = .auth (some auth) → auth.Valid f.user) :
    (state.setAux f.fid aux).Valid := by
  constructor
  · have numbers : (state.setAux f.fid aux).fids.map Spfid.fid = state.fids.map Spfid.fid := by
      simp only [State.setAux, List.map_map]
      apply List.map_congr_left
      intro g _
      by_cases same : g.fid = f.fid <;> simp [same]
    rw [numbers]
    exact valid.unique
  · intro g changed auth started
    obtain ⟨old, inside, rfl⟩ := List.mem_map.mp changed
    by_cases same : old.fid = f.fid
    · have exact : old = f := List.inj_on_of_nodup_map valid.unique inside member same
      simp only [same, if_true] at started ⊢
      rw [exact]
      exact auths auth started
    · simp only [same, if_false] at started ⊢
      exact valid.auths old inside auth started

omit [DecidableEq User] in
theorem xauthWrite_valid {auth : Xauth User} {user : User} (valid : auth.Valid user)
    (offset : UInt64) (data : Bytes)
    (inside : (offset + UInt64.ofNat data.length).toNat ≤ responseSize →
      offset.toNat + data.length < 2 ^ 64) :
    ∃ next, xauthWrite auth offset data = some next ∧ next.Valid user := by
  unfold xauthWrite
  by_cases large : (offset + UInt64.ofNat data.length).toNat > responseSize
  · exact ⟨auth, if_pos large, valid⟩
  · have below := inside (by omega)
    have stop : (offset + UInt64.ofNat data.length).toNat = offset.toNat + data.length := by
      rw [UInt64.toNat_add, UInt64.toNat_ofNat']
      omega
    rw [stop] at large ⊢
    simp only [large, if_false]
    by_cases empty : data = []
    · exact ⟨auth, by simp [empty], valid⟩
    · have room : offset.toNat + data.length ≤ responseSize := by omega
      simp only [empty, room, if_false, if_true]
      refine ⟨_, rfl, valid.owner, valid.authid, ?_, ?_⟩
      · rw [overwrite_length _ _ _ (by rw [valid.response]; exact room)]
        exact valid.response
      · have old := valid.resplen
        dsimp only
        split <;> omega

theorem xauthCheckauth_defined (crypto : Crypto User Key) (passkeys : List (Passkey User))
    (user : User) (afid : Spfid User) (owned : user = afid.user → afid.aux ≠ .file) :
    ∃ result, xauthCheckauth crypto passkeys user (some afid) = some result := by
  simp only [xauthCheckauth]
  cases shape : afid.aux with
  | file =>
      by_cases same : user = afid.user
      · exact absurd shape (owned same)
      · exact ⟨(false, passkeys), by simp [same]⟩
  | auth auth =>
      cases auth with
      | none => exact ⟨_, rfl⟩
      | some auth =>
          dsimp only
          split
          · exact ⟨_, rfl⟩
          · split
            · exact ⟨_, rfl⟩
            · exact ⟨_, rfl⟩
            · split
              · exact ⟨_, rfl⟩
              · split <;> exact ⟨_, rfl⟩

theorem step_valid (crypto : Crypto User Key) (state : State User) (event : Event User)
    (valid : state.Valid) (inBounds : InBounds state event) :
    ∃ next, step crypto state event = some next ∧ next.Valid := by
  cases event with
  | auth afid user random =>
      refine ⟨_, rfl, ?_⟩
      unfold spAuth
      split
      · exact drop_valid valid afid
      · rename_i unused
        split
        · exact valid
        · refine add_valid valid _ unused ?_
          intro auth started
          simp only [Aux.auth.injEq, Option.some.injEq] at started
          subst auth
          exact ⟨rfl, List.length_ofFn, List.length_replicate, Nat.zero_le _⟩
  | write fid offset data =>
      simp only [step, spWrite]
      cases found : state.find fid with
      | none => exact ⟨state, rfl, valid⟩
      | some f =>
          obtain ⟨member, rfl⟩ := find_some found
          dsimp only
          cases shape : f.aux with
          | file => exact ⟨state, rfl, valid⟩
          | auth auth =>
              cases auth with
              | none => exact ⟨state, rfl, valid⟩
              | some auth =>
                  obtain ⟨next, written, nextValid⟩ := xauthWrite_valid
                    (valid.auths f member auth shape) offset data (inBounds f auth found shape)
                  refine ⟨state.setAux f.fid (.auth (some next)), ?_, ?_⟩
                  · simp only [written, Option.bind_eq_bind, Option.bind_some]
                  · refine setAux_valid valid member _ ?_
                    intro other same
                    simp only [Aux.auth.injEq, Option.some.injEq] at same
                    subst other
                    exact nextValid
  | pkeyGen user random => exact ⟨_, rfl, valid.unique, valid.auths⟩
  | attach fid afid user attached =>
      simp only [step, spAttach]
      cases unused : state.find fid with
      | some f => exact ⟨state, rfl, valid⟩
      | none =>
          cases found : state.find afid with
          | none => exact ⟨state, rfl, valid⟩
          | some f =>
              cases user with
              | none => exact ⟨state, rfl, valid⟩
              | some user =>
                  obtain ⟨⟨accepted, passkeys⟩, checked⟩ := xauthCheckauth_defined crypto
                    state.passkeys user f fun same => inBounds f unused found (congrArg some same)
                  have kept : State.Valid { state with passkeys := passkeys } :=
                    ⟨valid.unique, valid.auths⟩
                  simp only [checked, Option.bind_eq_bind, Option.bind_some]
                  split
                  · refine ⟨_, rfl, add_valid kept ⟨fid, user, .file⟩ unused ?_⟩
                    intro auth started
                    cases started
                  · exact ⟨_, rfl, kept⟩
  | clunk fid =>
      refine ⟨_, rfl, ?_⟩
      unfold spClunk
      split
      · exact valid
      · rename_i f found
        obtain ⟨member, rfl⟩ := find_some found
        split
        · refine setAux_valid valid member _ ?_
          intro auth started
          cases started
        · exact drop_valid valid f.fid

/-- In every state that the handlers reach within bounds, a check of a user with a public
key is sound exactly when the first passkey tried, if it comes to one, is answered. -/
theorem run_checkauth_sound_iff (crypto : Crypto User Key) (events : List (Event User))
    (inBounds : Guarded (step crypto) InBounds {} events) :
    ∃ state, run (step crypto) {} events = some state ∧
      ∀ afid ∈ state.fids, ∀ auth, afid.aux = .auth (some auth) →
        ∀ user key, crypto.ukey user = .pubkey key →
          (Sound crypto auth key user state.passkeys
              (xauthCheckauth crypto state.passkeys user (some afid)) ↔
            (user = afid.user → FirstTriedAnswers crypto auth key state.passkeys)) := by
  have initial : State.Valid ({} : State User) := ⟨List.nodup_nil, fun f member => by cases member⟩
  obtain ⟨state, ran, valid⟩ := run_defined (step crypto)
    (fun state event valid allowed => step_valid crypto state event valid allowed) initial inBounds
  refine ⟨state, ran, ?_⟩
  intro afid member auth started user key real
  exact xauthCheckauth_sound_iff state.passkeys real started (valid.auths afid member auth started).owner

end Runs

-- No signature verifies, and every hash is the same twenty bytes.
def constantCrypto : Crypto Bool Unit where
  ukey := fun _ => .pubkey ()
  adminkey := ()
  xauthVerify := fun _ _ _ => false
  xauthHash := fun _ => some (List.replicate 20 1)

def garbageResponse : List (Event Bool) :=
  [.auth 5 (some true) (fun _ => 7), .pkeyGen true (fun _ => 3), .write 5 0 [1, 2, 3]]

theorem run_checkauth_sound_iff_garbage :
    ∃ state, run (step constantCrypto) {} garbageResponse = some state ∧
      ∀ afid ∈ state.fids, ∀ auth, afid.aux = .auth (some auth) →
        ∀ user key, constantCrypto.ukey user = .pubkey key →
          (Sound constantCrypto auth key user state.passkeys
              (xauthCheckauth constantCrypto state.passkeys user (some afid)) ↔
            (user = afid.user → FirstTriedAnswers constantCrypto auth key state.passkeys)) := by
  apply run_checkauth_sound_iff constantCrypto garbageResponse
  refine ⟨trivial, fun _ _ => ⟨trivial, fun _ _ => ⟨?_, fun _ _ => trivial⟩⟩⟩
  intro found auth _ _ _
  decide

/-- Three bytes of garbage log in a user who holds a passkey, and use the passkey up. -/
theorem garbage_accepted :
    ∃ state afid auth, run (step constantCrypto) {} garbageResponse = some state ∧
      afid ∈ state.fids ∧ afid.aux = .auth (some auth) ∧ state.passkeys.length = 1 ∧
      xauthCheckauth constantCrypto state.passkeys true (some afid) = some (true, []) ∧
      ¬ Sound constantCrypto auth () true state.passkeys
        (xauthCheckauth constantCrypto state.passkeys true (some afid)) := by
  refine ⟨_, _, _, rfl, List.mem_cons_self, rfl, rfl, rfl, ?_⟩
  intro sound
  rcases sound.accepts [] rfl with byUser | byAdmin | ⟨front, p, back, _, _, answers, _⟩
  · cases byUser
  · cases byAdmin
  · have same : List.replicate 20 (1 : UInt8) = [1, 2, 3] := Option.some.inj answers
    exact absurd same (by decide)

end Xcpu.Xcpufs.Auth
