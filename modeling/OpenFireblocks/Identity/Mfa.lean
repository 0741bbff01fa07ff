import OpenFireblocks.Identity.Login

/-!
# Changing the second factor

`beginMfaEnrollment`, `confirmMfaEnrollment` and `disableMfa` of `identity/auth.service.ts`, with the
re-authentication they share, beside the logins and verifications of `Identity/Login.lean`. Every
request is a thread: it reads the row, compares what was presented, and writes.

A new secret goes to the column of the one in force, and the flag is written on its own, without a
look at the row. So the factor changes by proof only in the runs of `factor_changes_by_proof`. `Begun`
is what an observer notes when a secret is saved. The answers and the enrolment URI are left out.
-/

namespace OpenFireblocks.Identity

open Threads Machine

/-! ## Requests -/

/-- What a request has presented, the row that it was compared with, and when. -/
structure StepUp where
  user : User
  password : String
  totpCode : Option String
  time : Nat

/-- The comparison of `requireMfaStepUp`. -/
def StepUp.valid (lib : AuthLib) (p : StepUp) : Bool :=
  verifyPassword lib p.user p.password &&
    (!p.user.mfaEnabled || (p.user.mfaSecret.filter (· ≠ "")).any fun secret =>
      (p.totpCode.filter (· ≠ "")).any fun code => verifyTotpCode lib secret code p.time)

/-- What a re-authentication is for. -/
inductive Purpose
  | enrol
  | disable

/-- A request in progress, by what it does next. -/
inductive MfaCall
  /-- a login or a verification -/
  | session (call : Call)
  /-- `requireMfaStepUp` reads the user. -/
  | steppingUp (purpose : Purpose) (id : UserId) (password : String) (totpCode : Option String)
  /-- The password and the code are compared. -/
  | comparing (purpose : Purpose) (id : UserId) (user : User) (password : String)
      (totpCode : Option String)
  /-- `setMfaSecret`. -/
  | saving (id : UserId) (proof : StepUp)
  /-- `confirmMfaEnrollment` reads the user. -/
  | confirming (id : UserId) (code : String)
  | checkingCode (id : UserId) (secret code : String)
  /-- `enableMfa`, after a code of this secret. -/
  | enabling (id : UserId) (secret code : String) (time : Nat)
  /-- `disableMfa` writes. -/
  | removing (id : UserId) (proof : StepUp)

inductive MfaAction
  | beginMfaEnrollment (id : UserId) (password : String) (totpCode : Option String)
  | confirmMfaEnrollment (id : UserId) (code : String)
  | disableMfa (id : UserId) (password : String) (totpCode : Option String)
  /-- An action of a login or a verification, the next step of any request, its early end, or the
  clock. -/
  | session (action : Action)

/-- A secret that was saved, what its request had presented, and the row it was saved to. -/
structure Begun where
  secret : String
  proof : StepUp
  row : User

structure MfaStore extends Store where
  begun : UserId → List Begun

/-- `setMfaSecret`, with the note of the observer. -/
def MfaStore.setMfaSecret (s : MfaStore) (id : UserId) (secret : String) (proof : StepUp) :
    MfaStore :=
  { toStore := s.setUser id fun u => { u with mfaSecret := some secret }
    begun := Function.update s.begun id
      (s.begun id ++ ((s.users id).map fun row => ⟨secret, proof, row⟩).toList) }

def MfaStore.enableMfa (s : MfaStore) (id : UserId) : MfaStore :=
  { s with toStore := s.setUser id fun u => { u with mfaEnabled := true } }

def MfaStore.disableMfa (s : MfaStore) (id : UserId) : MfaStore :=
  { s with toStore := s.setUser id fun u => { u with mfaEnabled := false, mfaSecret := none } }

def Purpose.write (purpose : Purpose) (id : UserId) (proof : StepUp) : MfaCall :=
  match purpose with
  | .enrol => .saving id proof
  | .disable => .removing id proof

section

variable (lib : AuthLib) (redisOn : Bool)

/-- The next step of a request; a secret is what is random. -/
def MfaCall.advance (s : MfaStore) (up : Bool) (token : String) :
    MfaCall → MfaStore × Option MfaCall
  | .session call =>
    let r := call.advance lib redisOn s.toStore up token
    ({ s with toStore := r.1 }, r.2.map .session)
  | .steppingUp purpose id password totpCode =>
    (s, match s.users id with
      | some user =>
        if user.status = .active then some (.comparing purpose id user password totpCode) else none
      | none => none)
  | .comparing purpose id user password totpCode =>
    let proof : StepUp := ⟨user, password, totpCode, s.now⟩
    (s, if proof.valid lib then some (purpose.write id proof) else none)
  | .saving id proof => (s.setMfaSecret id token proof, none)
  | .confirming id code =>
    (s, match s.users id with
      | some user =>
        (user.mfaSecret.filter (· ≠ "")).map fun secret => .checkingCode id secret code
      | none => none)
  | .checkingCode id secret code =>
    (s, if verifyTotpCode lib secret code s.now then some (.enabling id secret code s.now) else none)
  | .enabling id _ _ _ => (s.enableMfa id, none)
  | .removing id _ => (s.disableMfa id, none)

def MfaCall.stop (s : MfaStore) : MfaCall → MfaStore
  | .session call => { s with toStore := call.stop s.toStore }
  | _ => s

/-- One step of one request, or the clock. -/
def mfaNext (s : MfaStore) : Option MfaCall → MfaAction → Option (MfaStore × Option MfaCall)
  | none, .beginMfaEnrollment id password totpCode =>
    some (s, some (.steppingUp .enrol id password totpCode))
  | none, .disableMfa id password totpCode =>
    some (s, some (.steppingUp .disable id password totpCode))
  | none, .confirmMfaEnrollment id code => some (s, some (.confirming id code))
  | none, .session action =>
    (next lib redisOn s.toStore none action).map fun r =>
      ({ s with toStore := r.1 }, r.2.map .session)
  | some call, .session (.advance up token) => some (call.advance lib redisOn s up token)
  | some call, .session .stop => some (call.stop s, none)
  | _, _ => none

end

/-! ## The factor -/

/-- Whether a login needs a second factor, and the secret that its codes are checked against. -/
def User.factor (u : User) : Bool × Option String :=
  (u.mfaEnabled, if u.mfaEnabled then u.mfaSecret else none)

def MfaStore.factorOf (s : MfaStore) (id : UserId) : Option (Bool × Option String) :=
  (s.users id).map User.factor

def StepUp.Proves (lib : AuthLib) (p : StepUp) (row : User) : Prop :=
  verifyPassword lib p.user p.password = true ∧
    (row.mfaEnabled = true → ∃ secret code, row.mfaSecret = some secret ∧ p.totpCode = some code ∧
      verifyTotpCode lib secret code p.time = true)

/-- The step of a request that changes the factor of an account is one that has a right to: it
confirms a secret by a valid code, which a request has created with the right proof for the row it
read and for the row it wrote, or it disables the factor with the right proof. -/
def ByProof (lib : AuthLib) (s : MfaStore) (call : MfaCall) (id : UserId) (t : MfaStore) : Prop :=
  (∃ secret code time, call = .enabling id secret code time ∧
    verifyTotpCode lib secret code time = true ∧ t.factorOf id = some (true, some secret) ∧
    ∃ b ∈ s.begun id, b.secret = secret ∧ b.proof.Proves lib b.proof.user ∧
      b.proof.Proves lib b.row) ∨
  ∃ proof row, call = .removing id proof ∧ s.users id = some row ∧ row.mfaEnabled = true ∧
    proof.Proves lib row ∧ t.factorOf id = some (false, none)

/-- What a write may find in the row: a secret is saved while no factor is in force, a factor is
enabled while the row has the secret whose code was checked, and the factor that is disabled is the
one that was proved. -/
def MfaCall.Safe (s : MfaStore) : MfaCall → Prop
  | .saving id _ => ∀ row, s.users id = some row → row.mfaEnabled = false
  | .enabling id secret _ _ =>
    ∀ row, s.users id = some row → row.mfaEnabled = false → row.mfaSecret = some secret
  | .removing id proof =>
    ∀ row, s.users id = some row → row.mfaEnabled = true →
      proof.user.mfaEnabled = true ∧ proof.user.mfaSecret = row.mfaSecret
  | _ => True

def SafeMfa (s : System MfaStore MfaCall) (e : Nat × MfaAction) : Prop :=
  match s.threads e.1, e.2 with
  | some call, .session (.advance _ _) => call.Safe s.shared
  | _, _ => True

/-- No enrolment is pending. -/
def MfaStore.Settled (s : MfaStore) : Prop :=
  ∀ id row, s.users id = some row → row.mfaEnabled = false → row.mfaSecret = none

/-! ## Logins leave it alone -/

def User.columns (u : User) : Bool × Option String := (u.mfaEnabled, u.mfaSecret)

def Store.columnsOf (s : Store) (id : UserId) : Option (Bool × Option String) :=
  (s.users id).map User.columns

variable {id : UserId}

variable {f : User → User} {lib : AuthLib} {redisOn : Bool} {s t : MfaStore}

theorem columnsOf_setUser_self {s : Store} :
    (s.setUser id f).columnsOf id = (s.users id).map fun u => (f u).columns := by
  rw [Store.columnsOf, setUser_users_self, Option.map_map]
  rfl

theorem columnsOf_setUser_of_ne {s : Store} {other : UserId} (h : id ≠ other) :
    (s.setUser other f).columnsOf id = s.columnsOf id := by
  rw [Store.columnsOf, setUser_users_of_ne h, Store.columnsOf]

theorem columnsOf_setUser {s : Store} (hf : ∀ u, (f u).columns = u.columns) (other id : UserId) :
    (s.setUser other f).columnsOf id = s.columnsOf id := by
  by_cases h : id = other
  · subst h
    rw [columnsOf_setUser_self]
    exact congrArg (Option.map · (s.users id)) (funext hf)
  · exact columnsOf_setUser_of_ne h

/-- No step of a login or a verification writes the two columns. -/
theorem columnsOf_advance (lib : AuthLib) (redisOn : Bool) (s : Store) (up : Bool) (token : String)
    (call : Call) (id : UserId) :
    (call.advance lib redisOn s up token).1.columnsOf id = s.columnsOf id := by
  cases call with
  | login => rfl
  | checking =>
    simp only [Call.advance]
    split
    · rfl
    · split <;> rfl
  | failing other ip =>
    cases ip with
    | none => rfl
    | some ip =>
      simp only [Call.advance]
      split <;> rfl
  | expiring => cases up <;> rfl
  | counting other failure threshold =>
    have hcount := columnsOf_setUser (s := s)
      (f := fun u => { u with failedLoginCount := u.failedLoginCount + 1 }) (fun _ => rfl) other id
    simp only [Call.advance]
    split
    · exact hcount
    · exact hcount
  | locking other failure =>
    have hlock : (s.lock other).columnsOf id = s.columnsOf id :=
      columnsOf_setUser (by intro u; rfl) other id
    exact hlock
  | clearing other user ip =>
    cases ip with
    | none => rfl
    | some ip =>
      simp only [Call.advance]
      split <;> rfl
  | challenging other => rfl
  | completing other =>
    have hsuccess : (s.recordSuccessfulLogin other).columnsOf id = s.columnsOf id :=
      columnsOf_setUser (by intro u; rfl) other id
    exact hsuccess
  | verifying | consuming => rfl
  | evaluating =>
    simp only [Call.advance]
    split <;> rfl

theorem columnsOf_stop (s : Store) (call : Call) (id : UserId) :
    (call.stop s).columnsOf id = s.columnsOf id := by
  unfold Call.stop
  split <;> rfl

theorem columnsOf_next {s t : Store} {action : Action} {call : Option Call}
    (h : next lib redisOn s none action = some (t, call)) (id : UserId) :
    t.columnsOf id = s.columnsOf id := by
  cases action with
  | login | verifyMfa =>
    cases h
    rfl
  | advance | stop => cases h
  | tick duration =>
    cases h
    rfl

/-! ## Steps -/

def MfaStore.Pending (lib : AuthLib) (s : MfaStore) : Prop :=
  ∀ id secret, s.columnsOf id = some (false, some secret) →
    ∃ b ∈ s.begun id, b.secret = secret ∧ b.proof.Proves lib b.proof.user ∧
      b.proof.Proves lib b.row

def MfaCall.Shown (lib : AuthLib) : MfaCall → Prop
  | .saving _ proof => proof.valid lib = true
  | .enabling _ secret code time => verifyTotpCode lib secret code time = true
  | .removing _ proof => proof.valid lib = true
  | _ => True

def mfaOutline (lib : AuthLib) : Outline MfaStore MfaCall where
  shared := MfaStore.Pending lib
  thread := fun _ call => call.Shown lib
  pair := fun _ _ => True
  pair_symm := fun h => h

theorem factorOf_congr (h : t.columnsOf id = s.columnsOf id) : s.factorOf id = t.factorOf id := by
  have hfactor : ∀ x : MfaStore, x.factorOf id =
      (x.columnsOf id).map fun c => (c.1, if c.1 then c.2 else none) := by
    intro x
    unfold MfaStore.factorOf Store.columnsOf
    rw [Option.map_map]
    rfl
  rw [hfactor, hfactor, h]

/-- What passes the comparison proves the factor of the row that was read. -/
theorem proves_of_valid {p : StepUp} (h : p.valid lib) : p.Proves lib p.user := by
  obtain ⟨hpassword, htotp⟩ := Bool.and_eq_true_iff.mp h
  refine ⟨hpassword, fun henabled => ?_⟩
  rw [henabled, Bool.not_true] at htotp
  obtain ⟨secret, hsecret, htotp⟩ := (Option.any_eq_true _ _).mp htotp
  obtain ⟨code, hcode, hvalid⟩ := (Option.any_eq_true _ _).mp htotp
  exact ⟨secret, code, (Option.filter_eq_some_iff.mp hsecret).1,
    (Option.filter_eq_some_iff.mp hcode).1, hvalid⟩

/-- A step that is allowed: it keeps what is asserted, and changes a factor by proof only. -/
structure StepsByProof (lib : AuthLib) (s : MfaStore) (call : Option MfaCall) (t : MfaStore)
    (call' : Option MfaCall) : Prop where
  pending : t.Pending lib
  shown : ∀ m, call' = some m → m.Shown lib
  byProof : ∀ id, s.factorOf id ≠ t.factorOf id → ∃ m, call = some m ∧ ByProof lib s m id t

theorem stepsByProof_same {call call' : Option MfaCall} (hs : s.Pending lib)
    (hcolumns : ∀ id, t.columnsOf id = s.columnsOf id) (hbegun : t.begun = s.begun)
    (hshown : ∀ m, call' = some m → m.Shown lib) : StepsByProof lib s call t call' where
  pending := by
    intro id secret h
    rw [hcolumns] at h
    rw [hbegun]
    exact hs id secret h
  shown := hshown
  byProof := fun id hne => absurd (factorOf_congr (hcolumns id)) hne

section

variable {lib : AuthLib} {s : MfaStore}

variable {proof : StepUp}

theorem shown_write (purpose : Purpose) (h : proof.valid lib) :
    (purpose.write id proof).Shown lib := by
  cases purpose with
  | enrol | disable => exact h

theorem saving_steps (token : String) (hs : s.Pending lib) (hshown : proof.valid lib)
    (hsafe : ∀ row, s.users id = some row → row.mfaEnabled = false) :
    StepsByProof lib s (some (.saving id proof)) (s.setMfaSecret id token proof) none where
  pending := by
    intro other secret h
    by_cases hid : other = id
    · subst hid
      have hcolumns : (s.users other).map (fun u => (u.mfaEnabled, some token)) =
          some (false, some secret) := columnsOf_setUser_self.symm.trans h
      obtain ⟨row, hrow, heq⟩ := Option.map_eq_some_iff.mp hcolumns
      have hbegun : (s.setMfaSecret other token proof).begun other =
          s.begun other ++ [⟨token, proof, row⟩] := by
        rw [MfaStore.setMfaSecret, hrow]
        exact Function.update_self ..
      obtain rfl : token = secret := Option.some.inj (Prod.mk.inj heq).2
      refine ⟨⟨token, proof, row⟩, by simp [hbegun], rfl, proves_of_valid hshown,
        (proves_of_valid hshown).1, fun h => ?_⟩
      rw [hsafe row hrow] at h
      cases h
    · have hcolumns : s.columnsOf other = some (false, some secret) :=
        (columnsOf_setUser_of_ne hid).symm.trans h
      have hbegun : (s.setMfaSecret id token proof).begun other = s.begun other :=
        Function.update_of_ne hid ..
      rw [hbegun]
      exact hs other secret hcolumns
  shown := fun m hm => (by cases hm)
  byProof := by
    intro other hne
    by_cases hid : other = id
    · subst hid
      have hafter : (s.setMfaSecret other token proof).factorOf other = s.factorOf other := by
        have husers : (s.setMfaSecret other token proof).users other =
            (s.users other).map fun u => { u with mfaSecret := some token } := setUser_users_self
        rw [MfaStore.factorOf, husers, MfaStore.factorOf]
        cases hrow : s.users other with
        | none => rfl
        | some row =>
          have hoff := hsafe row hrow
          simp [User.factor, hoff]
      exact absurd hafter.symm hne
    · exact absurd (factorOf_congr (columnsOf_setUser_of_ne hid)) hne

theorem stepsByProof_setUser {f : User → User} {m : MfaCall} (hs : s.Pending lib)
    (hf : ∀ row secret, (f row).columns ≠ (false, some secret))
    (hchange : ∀ row, s.users id = some row → row.factor ≠ (f row).factor →
      ByProof lib s m id { s with toStore := s.setUser id f }) :
    StepsByProof lib s (some m) { s with toStore := s.setUser id f } none where
  pending := by
    intro other pending h
    by_cases hid : other = id
    · subst hid
      obtain ⟨row, -, heq⟩ := Option.map_eq_some_iff.mp (columnsOf_setUser_self.symm.trans h)
      exact absurd heq (hf row pending)
    · exact hs other pending ((columnsOf_setUser_of_ne hid).symm.trans h)
  shown := fun m hm => (by cases hm)
  byProof := by
    intro other hne
    by_cases hid : other = id
    · subst hid
      rw [MfaStore.factorOf, MfaStore.factorOf, setUser_users_self] at hne
      cases hrow : s.users other with
      | none => exact absurd (by rw [hrow]; rfl) hne
      | some row =>
        rw [hrow] at hne
        exact ⟨m, rfl, hchange row hrow fun h => hne (congrArg some h)⟩
    · exact absurd (factorOf_congr (columnsOf_setUser_of_ne hid)) hne

theorem enabling_steps {secret code : String} {time : Nat} (hs : s.Pending lib)
    (hshown : verifyTotpCode lib secret code time)
    (hsafe : ∀ row, s.users id = some row → row.mfaEnabled = false → row.mfaSecret = some secret) :
    StepsByProof lib s (some (.enabling id secret code time)) (s.enableMfa id) none := by
  refine stepsByProof_setUser hs (fun row pending h => by cases (Prod.mk.inj h).1) ?_
  intro row hrow hne
  cases hon : row.mfaEnabled with
  | true => exact absurd (by simp [User.factor, hon]) hne
  | false =>
    -- the secret of the row is the one whose code was checked, and it was pending
    have hsecret := hsafe row hrow hon
    refine .inl ⟨secret, code, time, rfl, hshown, ?_, hs id secret ?_⟩
    · rw [MfaStore.factorOf, setUser_users_self, hrow]
      simp [User.factor, hsecret]
    · rw [Store.columnsOf, hrow]
      simp [User.columns, hon, hsecret]

theorem removing_steps (hs : s.Pending lib) (hshown : proof.valid lib)
    (hsafe : ∀ row, s.users id = some row → row.mfaEnabled →
      proof.user.mfaEnabled ∧ proof.user.mfaSecret = row.mfaSecret) :
    StepsByProof lib s (some (.removing id proof)) (s.disableMfa id) none := by
  refine stepsByProof_setUser hs (fun row pending h => by cases (Prod.mk.inj h).2) ?_
  intro row hrow hne
  cases hon : row.mfaEnabled with
  | false => exact absurd (by simp [User.factor, hon]) hne
  | true =>
    obtain ⟨hread, hsame⟩ := hsafe row hrow hon
    obtain ⟨hpassword, hcode⟩ := proves_of_valid hshown
    refine .inr ⟨proof, row, rfl, hrow, hon, ⟨hpassword, fun _ => ?_⟩, ?_⟩
    · rw [← hsame]
      exact hcode hread
    · rw [MfaStore.factorOf, setUser_users_self, hrow]
      rfl

end

theorem advance_stepsByProof {up : Bool} {token : String} {call : MfaCall} (hs : s.Pending lib)
    (hshown : call.Shown lib) (hsafe : call.Safe s) :
    StepsByProof lib s (some call) (call.advance lib redisOn s up token).1
      (call.advance lib redisOn s up token).2 := by
  cases call with
  | session call =>
    refine stepsByProof_same hs (columnsOf_advance lib redisOn s.toStore up token call) rfl ?_
    intro m hm
    obtain ⟨call', -, rfl⟩ := Option.map_eq_some_iff.mp hm
    exact trivial
  | saving => exact saving_steps token hs hshown hsafe
  | enabling => exact enabling_steps hs hshown hsafe
  | removing => exact removing_steps hs hshown hsafe
  | steppingUp | comparing | confirming | checkingCode =>
    -- nothing is written, and a proof that the request goes on with has just been checked
    refine stepsByProof_same hs (fun _ => rfl) rfl fun m hm => ?_
    simp only [MfaCall.advance] at hm
    repeat' split at hm
    all_goals first
      | cases hm
        first | exact trivial | assumption | exact shown_write _ ‹_›
      | cases hm
      | obtain ⟨_, _, rfl⟩ := Option.map_eq_some_iff.mp hm
        exact trivial

theorem stop_stepsByProof {call : MfaCall} (hs : s.Pending lib) :
    StepsByProof lib s (some call) (call.stop s) none := by
  cases call with
  | session call =>
    exact stepsByProof_same hs (columnsOf_stop s.toStore call) rfl fun m hm => (by cases hm)
  | _ => exact stepsByProof_same hs (fun _ => rfl) rfl fun m hm => (by cases hm)

theorem mfaNext_stepsByProof {call call' : Option MfaCall} {action : MfaAction} (hs : s.Pending lib)
    (hshown : ∀ m, call = some m → m.Shown lib)
    (hsafe : ∀ m up token, call = some m → action = .session (.advance up token) → m.Safe s)
    (h : mfaNext lib redisOn s call action = some (t, call')) :
    StepsByProof lib s call t call' := by
  -- a request that begins has shown nothing yet
  have hbegin : ∀ {m : MfaCall}, m.Shown lib → StepsByProof lib s none s (some m) := by
    intro m hm
    refine stepsByProof_same hs (fun _ => rfl) rfl fun m' hm' => ?_
    cases hm'
    exact hm
  unfold mfaNext at h
  split at h
  · cases h
    exact hbegin trivial
  · cases h
    exact hbegin trivial
  · cases h
    exact hbegin trivial
  · obtain ⟨⟨u, c⟩, hnext, heq⟩ := Option.map_eq_some_iff.mp h
    cases heq
    refine stepsByProof_same hs (columnsOf_next hnext) rfl fun m hm => ?_
    obtain ⟨call', -, rfl⟩ := Option.map_eq_some_iff.mp hm
    exact trivial
  · next call up token =>
    obtain ⟨rfl, rfl⟩ := Prod.mk.inj (Option.some.inj h)
    exact advance_stepsByProof hs (hshown call rfl) (hsafe call up token rfl rfl)
  · next call =>
    cases h
    exact stop_stepsByProof hs
  · cases h

theorem step_byProof {s t : System MfaStore MfaCall} {e : Nat × MfaAction}
    (hs : (mfaOutline lib).Holds s) (hsafe : SafeMfa s e)
    (h : step (mfaNext lib redisOn) s e = some t) :
    (mfaOutline lib).Holds t ∧ ∀ id, s.shared.factorOf id ≠ t.shared.factorOf id →
      ∃ call, s.threads e.1 = some call ∧ ByProof lib s.shared call id t.shared := by
  obtain ⟨i, action⟩ := e
  obtain ⟨x, l, hnext, rfl⟩ := step_eq_some.mp h
  have hsteps : StepsByProof lib s.shared (s.threads i) x l := by
    refine mfaNext_stepsByProof hs.shared (fun m hm => hs.thread hm) ?_ hnext
    intro m up token hm haction
    subst haction
    unfold SafeMfa at hsafe
    rw [hm] at hsafe
    exact hsafe
  refine ⟨?_, hsteps.byProof⟩
  exact Outline.Holds.step hs id hsteps.pending hsteps.shown
    (fun j m _ hm => hs.thread hm) (fun m _ j n _ _ => trivial)

/-- **In every run whose writes are safe, each step that changes a factor does so by proof.** -/
theorem factor_changes_by_proof {lib : AuthLib} {redisOn : Bool} {x : MfaStore}
    {u v : System MfaStore MfaCall} {es : List (Nat × MfaAction)} {e : Nat × MfaAction}
    (hx : x.Settled)
    (hsafe : Guarded (step (mfaNext lib redisOn)) SafeMfa (System.idle x) (es ++ [e]))
    (hrun : run (step (mfaNext lib redisOn)) (System.idle x) es = some u)
    (hstep : step (mfaNext lib redisOn) u e = some v) (id : UserId)
    (hchange : u.shared.factorOf id ≠ v.shared.factorOf id) :
    ∃ call, u.threads e.1 = some call ∧ ByProof lib u.shared call id v.shared := by
  have hpending : x.Pending lib := by
    intro id secret h
    obtain ⟨row, hrow, heq⟩ := Option.map_eq_some_iff.mp h
    obtain ⟨hoff, hsecret⟩ := Prod.mk.inj heq
    rw [hx id row hrow hoff] at hsecret
    cases hsecret
  obtain ⟨hbefore, hlast⟩ := hsafe.append
  have hholds : (mfaOutline lib).Holds u :=
    run_guarded_invariant (fun hs hG h => (step_byProof hs hG h).1)
      (Outline.holds_idle hpending) hbefore hrun
  exact (step_byProof hholds (hlast u hrun).1 hstep).2 id hchange

/-! ## One account -/

/-- A secret in base 32. Its code in the second half of the first minute is 287082. -/
def firstSecret : String := "GEZDGNBVGY3TQOJQGEZDGNBVGY3TQOJQ"

def secondSecret : String := "KRSXG5CTMVRXEZLUKRSXG5CTMVRXEZLU"

/-- The hash of `abc`. -/
def abcHash : String := "$2a$06$If6bvum7DFjUnE9p2uDeDu0YHzrHM6tf.iqN8.yx.jNN1ILEf7h0i"

/-- The libraries on what is presented here. -/
def mfaLib : AuthLib where
  compare password hash := password = "abc" ∧ hash = abcHash
  check code secret now := code = "287082" ∧ secret = firstSecret ∧ now / 30000 = 1
  sha256 _ := []

def mfaAccount (mfaEnabled : Bool) (mfaSecret : Option String) : MfaStore where
  now := 59000
  emails _ := some 1
  users id := if id = 1 then some ⟨some abcHash, .active, mfaSecret, mfaEnabled, 0, none, none⟩ else none
  redis _ _ := none
  challenges := []
  watch _ := ⟨0, false, false⟩
  begun _ := []

def onward (secret : String) : MfaAction := .session (.advance true secret)

/-- An enrolment is begun, up to the write. -/
def enrolling (totpCode : Option String) : List (Nat × MfaAction) :=
  [(0, .beginMfaEnrollment 1 "abc" totpCode), (0, onward ""), (0, onward "")]

/-- A first secret is saved, and its code is checked, up to the flag. -/
def confirmingFirst : List (Nat × MfaAction) :=
  enrolling none ++ [(0, onward firstSecret), (0, .confirmMfaEnrollment 1 "287082"), (0, onward ""),
    (0, onward "")]

theorem settled_mfaAccount {mfaEnabled : Bool} {mfaSecret : Option String}
    (h : mfaEnabled = false → mfaSecret = none) : (mfaAccount mfaEnabled mfaSecret).Settled := by
  intro id row hrow hoff
  have hrow' : (if id = 1 then
      some (⟨some abcHash, .active, mfaSecret, mfaEnabled, 0, none, none⟩ : User) else none) =
      some row := hrow
  split at hrow'
  · cases hrow'
    exact h hoff
  · cases hrow'

theorem factor_changes_by_proof_first :
    ∃ u v, run (step (mfaNext mfaLib true)) (System.idle (mfaAccount false none)) confirmingFirst =
        some u ∧
      step (mfaNext mfaLib true) u (0, onward "") = some v ∧
      u.shared.factorOf 1 = some (false, none) ∧
      v.shared.factorOf 1 = some (true, some firstSecret) ∧
      ∃ call, u.threads 0 = some call ∧ ByProof mfaLib u.shared call 1 v.shared := by
  have hsafe : Guarded (step (mfaNext mfaLib true)) SafeMfa (System.idle (mfaAccount false none))
      (confirmingFirst ++ [(0, onward "")]) := by
    refine guarded_cons rfl trivial (guarded_cons rfl trivial (guarded_cons rfl trivial
      (guarded_cons rfl ?_ (guarded_cons rfl trivial (guarded_cons rfl trivial
      (guarded_cons rfl trivial (guarded_cons rfl ?_ trivial)))))))
    · intro row hrow
      cases hrow
      rfl
    · intro row hrow _
      cases hrow
      rfl
  refine ⟨_, _, rfl, rfl, rfl, rfl, ?_⟩
  refine factor_changes_by_proof (settled_mfaAccount fun _ => rfl) hsafe rfl rfl 1 ?_
  intro hsame
  cases Option.some.inj (hsame)

/-- **An enrolment that is only begun replaces the secret in force.** The request has the password
and a valid code of the old secret; no code of the new one was ever presented. -/
theorem factor_changed_by_begin :
    (mfaAccount true (some firstSecret)).Settled ∧
    ∃ u v, run (step (mfaNext mfaLib true)) (System.idle (mfaAccount true (some firstSecret)))
        (enrolling (some "287082")) = some u ∧
      step (mfaNext mfaLib true) u (0, onward secondSecret) = some v ∧
      u.shared.factorOf 1 = some (true, some firstSecret) ∧
      v.shared.factorOf 1 = some (true, some secondSecret) ∧
      ¬∃ call, u.threads 0 = some call ∧ ByProof mfaLib u.shared call 1 v.shared := by
  refine ⟨settled_mfaAccount fun h => (by cases h), _, _, rfl, rfl, rfl, rfl, ?_⟩
  rintro ⟨call, hcall, ⟨secret, code, time, rfl, -⟩ | ⟨proof, row, rfl, -⟩⟩
  · cases Option.some.inj hcall
  · cases Option.some.inj hcall

end OpenFireblocks.Identity
