import OpenFireblocks.Lib.Threads

/-!
# Logging in

`login` and `verifyMfaAndLogin` of `identity/auth.service.ts`, with the services they call:
failed attempts per account and address in Redis (`login-attempts.service.ts`), challenges between
the password and the second factor (`mfa-challenges.service.ts`), and the count and the lock of an
account in its row of `users` (`users.service.ts`).

* A request is a thread. Each of its steps is one statement, one command to Redis or the comparison
  of a code.
* A command to Redis may fail, which `LoginAttemptsService` catches. A request may end early.
* Time is in milliseconds and the gateways, Redis and the database agree on it.
* `Watch` is what an observer notes about an account. No function of the source reads it.
-/

namespace OpenFireblocks.Identity

abbrev UserId := Nat

/-! ## What is stored -/

inductive UserStatus
  | active
  | inactive
  | suspended
deriving DecidableEq

/-- A row of `users`. -/
structure User where
  passwordHash : Option String
  status : UserStatus
  mfaSecret : Option String
  mfaEnabled : Bool
  failedLoginCount : Nat
  lockedUntil : Option Nat
  lastLoginAt : Option Nat
deriving DecidableEq

/-- A row of `mfa_challenges`. -/
structure Challenge where
  userId : UserId
  challengeHash : List UInt8
  expiresAt : Nat
  consumedAt : Option Nat

/-- A counter in Redis, with the time at which it goes away. -/
structure Counter where
  count : Nat
  expiresAt : Option Nat

/-- What an observer notes about an account. -/
structure Watch where
  /-- wrong codes compared since the account was last unlocked -/
  guesses : Nat
  /-- a wrong code was compared and is not counted -/
  uncountedCode : Bool
  /-- a request with a wrong password is past the lock check, and the failure is not counted yet -/
  uncountedPassword : Bool

structure Store where
  now : Nat
  /-- the unique index on `email` -/
  emails : String → Option UserId
  users : UserId → Option User
  redis : UserId → String → Option Counter
  challenges : List Challenge
  watch : UserId → Watch

/-- The libraries: `bcrypt.compare`, `authenticator.check` at a time, SHA-256. -/
structure AuthLib where
  compare : String → String → Bool
  check : String → String → Nat → Bool
  sha256 : String → List UInt8

def Store.setUser (s : Store) (id : UserId) (f : User → User) : Store :=
  { s with users := Function.update s.users id ((s.users id).map f) }

def Store.note (s : Store) (id : UserId) (f : Watch → Watch) : Store :=
  { s with watch := Function.update s.watch id (f (s.watch id)) }

section

variable (s : Store) (id : UserId) (ip : String)

def Store.setCounter (c : Option Counter) : Store :=
  { s with redis := Function.update s.redis id (Function.update (s.redis id) ip c) }

/-! ## Failed attempts from one address -/

def PAIR_MAX_FAILURES : Nat := 5
def PAIR_WINDOW_SECONDS : Nat := 15 * 60

def Counter.live (c : Counter) (now : Nat) : Bool := c.expiresAt.all (now < ·)

/-- What `GET` returns, as a number: no counter reads as 0. -/
def reading (c : Option Counter) (now : Nat) : Nat :=
  match c with
  | some c => if c.live now then c.count else 0
  | none => 0

def Store.counter : Nat := reading (s.redis id ip) s.now

/-- `INCR`: a counter that is gone starts again, without a time to go away. -/
def Store.incr : Store :=
  s.setCounter id ip <| some <|
    match s.redis id ip with
    | some c => if c.live s.now then { c with count := c.count + 1 } else ⟨1, none⟩
    | none => ⟨1, none⟩

def Store.expire : Store :=
  s.setCounter id ip <|
    match s.redis id ip with
    | some c =>
      if c.live s.now then
        some { c with expiresAt := some (s.now + PAIR_WINDOW_SECONDS * 1000) }
      else none
    | none => none

/-- `DEL`. -/
def Store.del : Store := s.setCounter id ip none

end

/-- `isBlocked`: fails open. -/
def Store.isBlocked (s : Store) (redisOn up : Bool) (id : UserId) (ip : Option String) : Bool :=
  match ip with
  | some ip => redisOn && up && decide (PAIR_MAX_FAILURES ≤ s.counter id ip)
  | none => false

/-! ## The account -/

def MAX_FAILED_LOGINS : Nat := 5
def DISTRIBUTED_MAX_FAILED_LOGINS : Nat := 25
def LOCKOUT_MINUTES : Nat := 15
def CHALLENGE_TTL_MINUTES : Nat := 10

section

variable (lib : AuthLib) (s : Store) (id : UserId)

def Store.findByEmail (email : String) : Option (UserId × User) := do
  let id ← s.emails email.toLower
  let user ← s.users id
  return (id, user)

def verifyPassword (user : User) (password : String) : Bool :=
  user.passwordHash.any fun hash => hash ≠ "" && lib.compare password hash

def isLocked (now : Nat) (user : User) : Bool := user.lockedUntil.any (now < ·)

/-- The first statement of `recordFailedLogin`, which returns the count. -/
def Store.countFailedLogin : Store × Nat :=
  let s := s.setUser id fun u => { u with failedLoginCount := u.failedLoginCount + 1 }
  (s, ((s.users id).map User.failedLoginCount).getD 0)

/-- The second statement of `recordFailedLogin`. -/
def Store.lock : Store :=
  s.setUser id fun u =>
    { u with lockedUntil := some (s.now + LOCKOUT_MINUTES * 60000), failedLoginCount := 0 }

def Store.recordSuccessfulLogin : Store :=
  s.setUser id fun u => { u with failedLoginCount := 0, lastLoginAt := some s.now }

/-! ## The second factor -/

/-- `/^\d{6}$/` and then the library. -/
def verifyTotpCode (secret code : String) (now : Nat) : Bool :=
  code.length = 6 && code.toList.all Char.isDigit && lib.check code secret now

def Store.createChallenge (token : String) : Store :=
  { s with challenges := s.challenges ++
      [⟨id, lib.sha256 token, s.now + CHALLENGE_TTL_MINUTES * 60000, none⟩] }

def Challenge.open (c : Challenge) (lib : AuthLib) (now : Nat) (id : UserId) (token : String) :
    Bool :=
  c.userId = id && c.challengeHash = lib.sha256 token && decide (now < c.expiresAt) &&
    c.consumedAt.isNone

/-- `consume`, and whether it changed a row. -/
def Store.consume (token : String) : Store × Bool :=
  ({ s with challenges := s.challenges.map fun c =>
      if c.open lib s.now id token then { c with consumedAt := some s.now } else c },
    s.challenges.any fun c => c.open lib s.now id token)

end

/-! ## Requests -/

/-- A failure on its way to the row of the account: a wrong password or a wrong code. -/
inductive Failure
  | password
  | code
deriving DecidableEq

/-- A request in progress, by what it does next. -/
inductive Call
  /-- `login` reads the user. -/
  | login (email password : String) (ip : Option String)
  /-- `isBlocked`, `isLocked` and the comparison of the password. -/
  | checking (id : UserId) (user : User) (password : String) (ip : Option String)
  /-- `recordFailure`. -/
  | failing (id : UserId) (ip : Option String)
  | expiring (id : UserId) (ip : String)
  /-- `recordFailedLogin`. -/
  | counting (id : UserId) (failure : Failure) (threshold : Nat)
  | locking (id : UserId) (failure : Failure)
  /-- `clear`. -/
  | clearing (id : UserId) (user : User) (ip : Option String)
  | challenging (id : UserId)
  /-- `recordSuccessfulLogin`. -/
  | completing (id : UserId)
  /-- `verifyMfaAndLogin` reads the user. -/
  | verifying (email challengeToken code : String)
  | consuming (id : UserId) (secret challengeToken code : String)
  /-- The code is compared. -/
  | evaluating (id : UserId) (secret code : String)
deriving DecidableEq

inductive Action
  | login (email password : String) (ip : Option String)
  | verifyMfa (email challengeToken code : String)
  /-- The request goes on. `up` says whether Redis answers, `token` is what is random. -/
  | advance (up : Bool) (token : String)
  /-- The request ends early. -/
  | stop
  /-- Time passes. -/
  | tick (duration : Nat)

section

variable (lib : AuthLib) (redisOn : Bool)

def passwordThreshold : Nat :=
  if redisOn then DISTRIBUTED_MAX_FAILED_LOGINS else MAX_FAILED_LOGINS

def Failure.counted (f : Failure) (w : Watch) : Watch :=
  match f with
  | .password => { w with uncountedPassword := false }
  | .code => { w with uncountedCode := false }

/-- The lock check of `login`. -/
def Store.locked (s : Store) (up : Bool) (id : UserId) (user : User) (ip : Option String) : Bool :=
  isLocked s.now user || s.isBlocked redisOn up id ip

def Call.advance (s : Store) (up : Bool) (token : String) : Call → Store × Option Call
  | .login email password ip =>
    (s, match s.findByEmail email with
      | some (id, user) => if user.status = .active then some (.checking id user password ip) else none
      | none => none)
  | .checking id user password ip =>
    if s.locked redisOn up id user ip then (s, none)
    else if verifyPassword lib user password then (s, some (.clearing id user ip))
    else (s.note id fun w => { w with uncountedPassword := true }, some (.failing id ip))
  | .failing id ip =>
    match ip with
    | some ip =>
      if redisOn && up then
        let s := s.incr id ip
        (s, some (if s.counter id ip = 1 then .expiring id ip
          else .counting id .password (passwordThreshold redisOn)))
      else (s, some (.counting id .password (passwordThreshold redisOn)))
    | none => (s, some (.counting id .password (passwordThreshold redisOn)))
  | .expiring id ip =>
    (if up then s.expire id ip else s, some (.counting id .password (passwordThreshold redisOn)))
  | .counting id failure threshold =>
    let r := s.countFailedLogin id
    if threshold ≤ r.2 then (r.1, some (.locking id failure))
    else (r.1.note id failure.counted, none)
  | .locking id failure => ((s.lock id).note id failure.counted, none)
  | .clearing id user ip =>
    (match ip with
      | some ip => if redisOn && up then s.del id ip else s
      | none => s,
    some (if user.mfaEnabled then .challenging id else .completing id))
  | .challenging id => (s.createChallenge lib id token, none)
  | .completing id =>
    ((s.recordSuccessfulLogin id).note id fun w => { w with guesses := 0 }, none)
  | .verifying email challengeToken code =>
    (s, match s.findByEmail email with
      | some (id, user) =>
        if user.mfaEnabled then
          (user.mfaSecret.filter (· ≠ "")).map fun secret =>
            .consuming id secret challengeToken code
        else none
      | none => none)
  | .consuming id secret challengeToken code =>
    let r := s.consume lib id challengeToken
    (r.1, if r.2 then some (.evaluating id secret code) else none)
  | .evaluating id secret code =>
    if verifyTotpCode lib secret code s.now then (s, some (.completing id))
    else (s.note id fun w => { w with guesses := w.guesses + 1, uncountedCode := true },
      some (.counting id .code MAX_FAILED_LOGINS))

/-- The request ends early. Its wrong password will not be counted any more. -/
def Call.stop (s : Store) : Call → Store
  | .failing id _ => s.note id Failure.password.counted
  | .expiring id _ => s.note id Failure.password.counted
  | .counting id .password _ => s.note id Failure.password.counted
  | .locking id .password => s.note id Failure.password.counted
  | _ => s

/-- Time passes. An account whose lock ends is unlocked. -/
def Store.tick (s : Store) (duration : Nat) : Store :=
  { s with
    now := s.now + duration
    watch := fun id =>
      if (s.users id).any (fun u => isLocked s.now u && !isLocked (s.now + duration) u) then
        { s.watch id with guesses := 0 }
      else s.watch id }

/-- One step of one request, or the clock. -/
def next (s : Store) : Option Call → Action → Option (Store × Option Call)
  | none, .login email password ip => some (s, some (.login email password ip))
  | none, .verifyMfa email challengeToken code => some (s, some (.verifying email challengeToken code))
  | some call, .advance up token => some (call.advance lib redisOn s up token)
  | some call, .stop => some (call.stop s, none)
  | none, .tick duration => some (s.tick duration, none)
  | _, _ => none

end

structure Store.Fresh (s : Store) : Prop where
  redis : ∀ id ip, s.redis id ip = none
  users : ∀ id u, s.users id = some u → u.failedLoginCount = 0 ∧ u.lockedUntil = none
  watch : ∀ id, s.watch id = ⟨0, false, false⟩

/-! ## What a step changes of an account -/

section

variable {s : Store} {id other : UserId} {ip other_ip : String}

theorem setUser_users_of_ne {f : User → User} (h : id ≠ other) :
    (s.setUser other f).users id = s.users id :=
  Function.update_of_ne h _ _

theorem setUser_users_self {f : User → User} : (s.setUser id f).users id = (s.users id).map f :=
  Function.update_self _ _ _

theorem note_watch_of_ne {f : Watch → Watch} (h : id ≠ other) :
    (s.note other f).watch id = s.watch id :=
  Function.update_of_ne h _ _

theorem note_watch_self {f : Watch → Watch} : (s.note id f).watch id = f (s.watch id) :=
  Function.update_self _ _ _

variable {c : Option Counter}

theorem setCounter_redis_of_ne (h : id ≠ other) : (s.setCounter other ip c).redis id = s.redis id :=
  Function.update_of_ne h _ _

theorem setCounter_redis_self :
    (s.setCounter id ip c).redis id = Function.update (s.redis id) ip c :=
  Function.update_self _ _ _

theorem counter_congr {t : Store} (hredis : t.redis id = s.redis id) (hnow : t.now = s.now) :
    t.counter id ip = s.counter id ip := by
  unfold Store.counter
  rw [hredis, hnow]

theorem counter_setCounter : (s.setCounter id ip c).counter id ip = reading c s.now := by
  unfold Store.counter
  rw [setCounter_redis_self, Function.update_self]
  rfl

/-- `INCR` adds one, from nothing if the counter is gone. -/
theorem counter_incr : (s.incr id ip).counter id ip = s.counter id ip + 1 := by
  unfold Store.incr
  rw [counter_setCounter]
  unfold Store.counter
  cases s.redis id ip with
  | none => rfl
  | some c =>
    by_cases hlive : c.live s.now
    · have hsame : Counter.live { c with count := c.count + 1 } s.now := hlive
      simp [reading, if_pos hlive, if_pos hsame]
    · simp only [reading, if_neg hlive]
      rfl

theorem live_until {count now w : Nat} (h : 0 < w) :
    Counter.live ⟨count, some (now + w)⟩ now :=
  decide_eq_true (Nat.lt_add_of_pos_right h)

/-- `EXPIRE` leaves the count. -/
theorem counter_expire : (s.expire id ip).counter id ip = s.counter id ip := by
  unfold Store.expire
  rw [counter_setCounter]
  unfold Store.counter
  cases s.redis id ip with
  | none => rfl
  | some c =>
    by_cases hlive : c.live s.now
    · have hwindow : 0 < PAIR_WINDOW_SECONDS * 1000 := by decide
      simp [reading, if_pos hlive, if_pos (live_until hwindow)]
    · simp [reading, if_neg hlive]

theorem live_of_later {c : Counter} {now d : Nat} (h : c.live (now + d)) :
    c.live now := by
  unfold Counter.live at h ⊢
  cases hc : c.expiresAt with
  | none => rfl
  | some e =>
    rw [hc] at h
    simp only [Option.all_some, decide_eq_true_eq] at h ⊢
    omega

theorem counter_tick {d : Nat} :
    (s.tick d).counter id ip = s.counter id ip ∨ (s.tick d).counter id ip = 0 := by
  show reading (s.redis id ip) (s.now + d) = reading (s.redis id ip) s.now ∨
    reading (s.redis id ip) (s.now + d) = 0
  cases s.redis id ip with
  | none => exact .inl rfl
  | some c =>
    by_cases hlater : c.live (s.now + d)
    · left
      simp [reading, if_pos hlater, if_pos (live_of_later hlater)]
    · right
      simp [reading, if_neg hlater]

theorem countFailedLogin_eq (s : Store) (other : UserId) :
    s.countFailedLogin other =
      (s.setUser other fun u => { u with failedLoginCount := u.failedLoginCount + 1 },
        ((s.users other).map fun u => u.failedLoginCount + 1).getD 0) := by
  unfold Store.countFailedLogin
  simp only [setUser_users_self, Option.map_map]
  rfl

theorem count_lt {o : Option User} {n : Nat} (h : ∀ u ∈ o, u.failedLoginCount + 1 < n) (hn : 0 < n) :
    ¬ n ≤ (o.map fun u => u.failedLoginCount + 1).getD 0 := by
  cases o with
  | none => exact Nat.not_le.mpr hn
  | some u => exact Nat.not_le.mpr (h u rfl)

theorem advance_counting {lib : AuthLib} {redisOn up : Bool} {failure : Failure} {threshold : Nat}
    {token : String} (hlt : ∀ u ∈ s.users other, u.failedLoginCount + 1 < threshold)
    (hpos : 0 < threshold) :
    (Call.counting other failure threshold).advance lib redisOn s up token =
      ((s.setUser other fun u => { u with failedLoginCount := u.failedLoginCount + 1 }).note other
        failure.counted, none) := by
  simp only [Call.advance, countFailedLogin_eq]
  rw [if_neg (count_lt hlt hpos)]

end

/-! ### One account -/

/-- One password is right. Codes are compared as they are. -/
def plainLib : AuthLib where
  compare := fun password hash => password == hash
  check := fun code secret _ => code == secret
  sha256 := fun token => token.toUTF8.toList

def owner (mfaEnabled : Bool) : User where
  passwordHash := some "right"
  status := .active
  mfaSecret := some "123456"
  mfaEnabled := mfaEnabled
  failedLoginCount := 0
  lockedUntil := none
  lastLoginAt := none

def oneAccount (mfaEnabled : Bool) : Store where
  now := 0
  emails := fun _ => some 1
  users := fun id => if id = 1 then some (owner mfaEnabled) else none
  redis := fun _ _ => none
  challenges := []
  watch := fun _ => ⟨0, false, false⟩

theorem oneAccount_fresh (mfaEnabled : Bool) : (oneAccount mfaEnabled).Fresh where
  redis := fun _ _ => rfl
  users := by
    intro id u hu
    simp only [oneAccount, Option.ite_none_right_eq_some, Option.some.injEq] at hu
    obtain ⟨-, rfl⟩ := hu
    exact ⟨rfl, rfl⟩
  watch := fun _ => rfl

def advances (i n : Nat) : List (Nat × Action) := List.replicate n (i, .advance true "")

def attempt (password ip : String) (n : Nat) : List (Nat × Action) :=
  (0, .login "owner@example.com" password (some ip)) :: advances 0 n

end OpenFireblocks.Identity
